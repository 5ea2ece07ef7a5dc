import WorldScript.Number.Reading
import WorldScript.Value

/-! # Values read from text

A cast from a string reads the longest number at its start and ignores what follows.  Only spaces,
tabs and line ends may stand before it.
-/

namespace WorldScript.Reading

def isGap (c : Char) : Bool := c = ' ' || c = '\t' || c = '\r' || c = '\n'

def skipGap (text : List Char) : List Char := text.dropWhile isGap

/-- Whether `text` starts with `word`, a word in lower-case ASCII letters and digits, whatever the case
of its letters. -/
def startsWith (word : List Char) (text : List Char) : Bool :=
  text.length ≥ word.length && (text.take word.length).map Char.toLower == word

def wrap32 (n : Int) : Int := Int.bmod n UInt32.size

def hexInteger? (text : List Char) : Option Int :=
  if startsWith ['0', 'x'] text then
    let run := (text.drop 2).takeWhile Number.isHexDigit
    if run.isEmpty then none else some (wrap32 (Number.ofDigits 16 run))
  else none

def clamp64 (n : Int) : Int := max Int64.minValue.toInt (min n Int64.maxValue.toInt)

def decimalInteger? (text : List Char) : Option Int :=
  let (negative, unsigned) := match text with
    | '-' :: rest => (true, rest)
    | '+' :: rest => (false, rest)
    | rest => (false, rest)
  let run := unsigned.takeWhile Char.isDigit
  if run.isEmpty then none
  else
    let n : Int := Number.ofDigits 10 run
    some (clamp64 (if negative then -n else n))

def integer? (text : String) : Option Int :=
  let rest := skipGap text.toList
  (hexInteger? rest).orElse fun _ => decimalInteger? rest

/-- An exponent mark at the start of `text` with its sign and digits, and what follows.  The digits are
empty when the mark stands alone. -/
def exponentMark? (text : List Char) : Option (Bool × List Char × List Char) :=
  match text with
  | c :: rest =>
    if c = 'e' || c = 'E' then
      let (negative, unsigned) := match rest with
        | '-' :: r => (true, r)
        | '+' :: r => (false, r)
        | r => (false, r)
      some (negative, unsigned.takeWhile Char.isDigit, unsigned.dropWhile Char.isDigit)
    else none
  | [] => none

/-- The digits of an unsigned decimal at the start of `text`, before an exponent: digits with an
optional point and fraction, or a point with a fraction. -/
def mantissa? (text : List Char) : Option (List Char × List Char × List Char) :=
  let whole := text.takeWhile Char.isDigit
  let rest := text.dropWhile Char.isDigit
  match rest with
  | '.' :: r =>
    let fraction := r.takeWhile Char.isDigit
    if whole.isEmpty && fraction.isEmpty then none
    else some (whole, fraction, r.dropWhile Char.isDigit)
  | _ => if whole.isEmpty then none else some (whole, [], rest)

def numberWord? (text : List Char) : Option (Float × List Char) :=
  if startsWith ['n', 'a', 'n'] text then some (0.0 / 0.0, text.drop 3)
  else if startsWith ['i', 'n', 'f'] text then some (1.0 / 0.0, text.drop 3)
  else none

/-- The double at the start of `text` and what follows it.  An exponent mark without digits spoils the
number; the words `nan` and `inf` take no sign. -/
def double? (text : List Char) : Option (Float × List Char) :=
  let (negative, unsigned) := match text with
    | '-' :: rest => (true, rest)
    | '+' :: rest => (false, rest)
    | rest => (false, rest)
  let signed (x : Float) : Float := if negative then -x else x
  match mantissa? unsigned with
  | none => numberWord? text
  | some (whole, fraction, rest) =>
    match exponentMark? rest with
    | none => some (signed (Number.Scanned.toFloat ⟨whole, fraction, false, []⟩), rest)
    | some (negativeExponent, run, after) =>
      if run.isEmpty then none
      else some (signed (Number.Scanned.toFloat ⟨whole, fraction, negativeExponent, run⟩), after)

def float? (text : String) : Option Float := (double? (skipGap text.toList)).map Prod.fst

/-- Doubles separated by commas up to a closing angle bracket, of which at most `count` are read. -/
def components? : Nat → List Char → Option (List Float)
  | 0, _ => none
  | count + 1, text =>
    match double? (skipGap text) with
    | none => none
    | some (x, rest) =>
      match skipGap rest with
      | ',' :: more => (components? count more).map (x :: ·)
      | '>' :: _ => some [x]
      | _ => none

def angled? (text : String) : Option (List Float) :=
  match skipGap text.toList with
  | '<' :: rest => components? rest.length rest
  | _ => none

def vector? (text : String) : Option (Vec3 Float) :=
  match angled? text with
  | some [x, y, z] => some ⟨x, y, z⟩
  | _ => none

def rotation? (text : String) : Option (Rotation Float) :=
  match angled? text with
  | some [x, y, z, s] => some ⟨x, y, z, s⟩
  | _ => none

end WorldScript.Reading
