import WorldScript.Json.Document

/-! # JSON text -/

namespace WorldScript.Document

/-- Digits with a point after the first `count` of them, filled up with zeros. -/
def pointed (run : List Char) (count : Nat) : List Char :=
  let whole := (run ++ List.replicate (count - run.length) '0').take count
  let fraction := run.drop count
  whole ++ '.' :: (if fraction.isEmpty then ['0'] else fraction)

/-- The text of a positive number with the given digits, the first of which stands for that many times
the power of ten.  Numbers from `10 ^ -5` to below `10 ^ 16` are written without an exponent and with at
least one place, all others with a signed exponent. -/
def decimalText (run : List Char) (power : Int) : List Char :=
  if -5 ≤ power ∧ power < 0 then
    '0' :: '.' :: List.replicate ((-power).toNat - 1) '0' ++ run
  else if 0 ≤ power ∧ power < 16 then pointed run (power.toNat + 1)
  else
    let mantissa := match run with
      | [c] => [c]
      | c :: rest => c :: '.' :: rest
      | [] => []
    let sign := if power < 0 then '-' else '+'
    mantissa ++ 'e' :: sign :: Number.digits power.natAbs

def floatText (x : Float) : String :=
  match Number.Parts.ofFloat x with
  | .nan | .infinite _ => "null"
  | .finite negative significand exponent =>
    if significand = 0 then Number.signText negative ++ "0.0"
    else
      let decimal := Number.shortest significand exponent
      let run := Number.digits decimal.digits
      let power := decimal.exponent + run.length - 1
      Number.signText negative ++ String.ofList (decimalText run power)

def hexDigit (n : Nat) : Char := ("0123456789abcdef".toList[n]?).getD '0'

def charText (c : Char) : List Char :=
  match c with
  | '"' => ['\\', '"']
  | '\\' => ['\\', '\\']
  | '\n' => ['\\', 'n']
  | '\r' => ['\\', 'r']
  | '\t' => ['\\', 't']
  | '\x08' => ['\\', 'b']
  | '\x0c' => ['\\', 'f']
  | c =>
    if c.toNat < 32 then ['\\', 'u', '0', '0', hexDigit (c.toNat / 16), hexDigit (c.toNat % 16)]
    else [c]

def stringText (s : String) : String :=
  String.ofList ('"' :: s.toList.flatMap charText ++ ['"'])

mutual

def compact : Document → String
  | .null => "null"
  | .bool b => if b then "true" else "false"
  | .integer n => toString n
  | .float x => floatText x
  | .string s => stringText s
  | .array items => "[" ++ ",".intercalate (compactItems items) ++ "]"
  | .object fields => "\x7b" ++ ",".intercalate (compactFields fields) ++ "\x7d"

def compactItems : List Document → List String
  | [] => []
  | d :: rest => d.compact :: compactItems rest

def compactFields : List (String × Document) → List String
  | [] => []
  | (name, d) :: rest => (stringText name ++ ":" ++ d.compact) :: compactFields rest

end

def indentation (depth : Nat) : String := String.ofList (List.replicate (2 * depth) ' ')

def block (depth : Nat) (opening closing : String) (parts : List String) : String :=
  if parts.isEmpty then opening ++ closing
  else
    let inner := indentation (depth + 1)
    opening ++ "\n" ++ ",\n".intercalate (parts.map (inner ++ ·)) ++ "\n" ++ indentation depth ++ closing

mutual

def prettyAt (depth : Nat) : Document → String
  | .array items => block depth "[" "]" (prettyItems (depth + 1) items)
  | .object fields => block depth "\x7b" "\x7d" (prettyFields (depth + 1) fields)
  | d => d.compact

def prettyItems (depth : Nat) : List Document → List String
  | [] => []
  | d :: rest => d.prettyAt depth :: prettyItems depth rest

def prettyFields (depth : Nat) : List (String × Document) → List String
  | [] => []
  | (name, d) :: rest => (stringText name ++ ": " ++ d.prettyAt depth) :: prettyFields depth rest

end

def pretty (d : Document) : String := d.prettyAt 0

def text (d : Document) (pretty : Bool) : String := if pretty then d.pretty else d.compact

end WorldScript.Document
