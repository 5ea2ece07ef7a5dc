import WorldScript.Capability.Offer
import WorldScript.Library.Argument
import WorldScript.Number.Reading
import WorldScript.Text.Blank

/-! # Lists

An item that is a string is read as a number as a whole: blanks may surround the number, and nothing
else.
-/

namespace WorldScript.Library

def signed (text : List Char) : Bool × List Char :=
  match text with
  | '-' :: rest => (true, rest)
  | '+' :: rest => (false, rest)
  | rest => (false, rest)

def wholeInteger? (text : List Char) : Option Int32 :=
  let (negative, run) := signed text
  let n : Int := if negative then -(Number.ofDigits 10 run : Int) else Number.ofDigits 10 run
  if !run.isEmpty && run.all Char.isDigit && Int32.minValue.toInt ≤ n && n ≤ Int32.maxValue.toInt then
    some (Int32.ofInt n)
  else none

def floatWord? (word : List Char) : Option Float :=
  let lowered := String.ofList (word.map Char.toLower)
  if lowered = "nan" then some (0.0 / 0.0)
  else if lowered = "inf" || lowered = "infinity" then some (1.0 / 0.0)
  else none

/-- The exponent that a whole text spells: whether it is negative, and its digits.  No text is no
exponent. -/
def wholeExponent? (text : List Char) : Option (Bool × List Char) :=
  match text with
  | [] => some (false, [])
  | c :: rest =>
    let (negative, run) := signed rest
    if (c = 'e' || c = 'E') && !run.isEmpty && run.all Char.isDigit then some (negative, run) else none

def wholeUnsigned? (text : List Char) : Option Float :=
  let whole := text.takeWhile Char.isDigit
  let (fraction, rest) := match text.dropWhile Char.isDigit with
    | '.' :: r => (r.takeWhile Char.isDigit, r.dropWhile Char.isDigit)
    | r => ([], r)
  if whole.isEmpty && fraction.isEmpty then floatWord? text
  else (wholeExponent? rest).map fun (negative, run) =>
    Number.Scanned.toFloat ⟨whole, fraction, negative, run⟩

def wholeFloat? (text : List Char) : Option Float :=
  let (negative, unsigned) := signed text
  (wholeUnsigned? unsigned).map fun x => if negative then -x else x

def element (function : String) (args : List Value) : Except HostFault (Option Value) := do
  let items ← listArg function args 0
  let index ← integerArg function args 1
  return (resolveIndex index items.length).bind fun i => items[i]?

def listLength (args : List Value) : Except HostFault Value := do
  return .integer (Int32.ofNat (← listArg "llGetListLength" args 0).length)

def listInteger (args : List Value) : Except HostFault Value := do
  let n := match ← element "llList2Integer" args with
    | some (.string s) => wholeInteger? (Text.trim s).toList
    | some item => item.asInteger?
    | none => none
  return .integer (n.getD 0)

def listFloat (args : List Value) : Except HostFault Value := do
  let x := match ← element "llList2Float" args with
    | some (.string s) => wholeFloat? (Text.trim s).toList
    | some item => item.asFloat?
    | none => none
  return .float (x.getD 0.0)

def listString (args : List Value) : Except HostFault Value := do
  return .string ((← element "llList2String" args).elim "" Value.text)

def dumpList (args : List Value) : Except HostFault Value := do
  let items ← listArg "llDumpList2String" args 0
  let separator ← textArg "llDumpList2String" args 1
  return .string (separator.intercalate (items.map Value.text))

def lists : Provider where
  name := "list"
  offers := [
    .function (.method "llGetListLength" [.list] (some .integer) (.ofValue listLength)),
    .function (.method "llList2Integer" [.list, .integer] (some .integer) (.ofValue listInteger)),
    .function (.method "llList2Float" [.list, .integer] (some .float) (.ofValue listFloat)),
    .function (.method "llList2String" [.list, .integer] (some .string) (.ofValue listString)),
    .function (.method "llDumpList2String" [.list, .string] (some .string) (.ofValue dumpList))]

end WorldScript.Library
