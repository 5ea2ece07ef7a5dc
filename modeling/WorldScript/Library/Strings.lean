import WorldScript.Capability.Offer
import WorldScript.Digest
import WorldScript.Library.Argument
import WorldScript.Text.Blank
import WorldScript.Text.LetterCase

/-! # Strings -/

namespace WorldScript.Library

def trimHead : Int32 := 1

def trimTail : Int32 := 2

def stringLength (args : List Value) : Except HostFault Value := do
  return .integer (Int32.ofNat (← textArg "llStringLength" args 0).toList.length)

/-- The characters from one index to another, both included.  When the first index is the larger one,
the characters outside the range are taken. -/
def subString (text : List Char) (first last : Int32) : List Char :=
  match resolveIndex first text.length, resolveIndex last text.length with
  | some start, some stop =>
    if start ≤ stop then (text.take (stop + 1)).drop start
    else text.take (stop + 1) ++ text.drop start
  | _, _ => []

def getSubString (args : List Value) : Except HostFault Value := do
  let text ← textArg "llGetSubString" args 0
  let first ← integerArg "llGetSubString" args 1
  let last ← integerArg "llGetSubString" args 2
  return .string (String.ofList (subString text.toList first last))

def toUpper (args : List Value) : Except HostFault Value := do
  return .string (Text.toUpper (← textArg "llToUpper" args 0))

def toLower (args : List Value) : Except HostFault Value := do
  return .string (Text.toLower (← textArg "llToLower" args 0))

def findIn (needle : List Char) : List Char → Option Nat
  | [] => if needle.isEmpty then some 0 else none
  | c :: rest =>
    if needle.isPrefixOf (c :: rest) then some 0 else (findIn needle rest).map (· + 1)

def subStringIndex (args : List Value) : Except HostFault Value := do
  let text ← textArg "llSubStringIndex" args 0
  let needle ← textArg "llSubStringIndex" args 1
  return .integer ((findIn needle.toList text.toList).elim (-1) Int32.ofNat)

def stringTrim (args : List Value) : Except HostFault Value := do
  let text ← textArg "llStringTrim" args 0
  let mode ← integerArg "llStringTrim" args 1
  let headless := if mode &&& trimHead != 0 then Text.trimStart text else text
  return .string (if mode &&& trimTail != 0 then Text.trimEnd headless else headless)

def digest (args : List Value) : Except HostFault Value := do
  return .string (Digest.ofText (← textArg "llSHA256String" args 0))

def strings : Provider where
  name := "string"
  offers := [
    .constant (.ofValue "STRING_TRIM_HEAD" (.integer trimHead)),
    .constant (.ofValue "STRING_TRIM_TAIL" (.integer trimTail)),
    .constant (.ofValue "STRING_TRIM" (.integer (trimHead ||| trimTail))),
    .function (.method "llStringLength" [.string] (some .integer) (.ofValue stringLength)),
    .function { FunctionOffer.method "llGetSubString" [.string, .integer, .integer] (some .string)
        (.ofValue getSubString) with
      description := some "Substring between two inclusive, possibly negative, indices" },
    .function (.method "llToUpper" [.string] (some .string) (.ofValue toUpper)),
    .function (.method "llToLower" [.string] (some .string) (.ofValue toLower)),
    .function (.method "llSubStringIndex" [.string, .string] (some .integer) (.ofValue subStringIndex)),
    .function (.method "llStringTrim" [.string, .integer] (some .string) (.ofValue stringTrim)),
    .function { FunctionOffer.method "llSHA256String" [.string] (some .string) (.ofValue digest) with
      cost := ⟨20.0, 0.0⟩ }]

end WorldScript.Library
