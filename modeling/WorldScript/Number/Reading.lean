import WorldScript.Number.Double

/-! # Reading decimals

Digit runs as natural numbers and decimals as correctly rounded doubles.
-/

namespace WorldScript.Number

def digitValue (c : Char) : Nat :=
  if c.isDigit then c.toNat - '0'.toNat
  else if 'a' ≤ c ∧ c ≤ 'f' then c.toNat - 'a'.toNat + 10
  else if 'A' ≤ c ∧ c ≤ 'F' then c.toNat - 'A'.toNat + 10
  else 0

def isHexDigit (c : Char) : Bool :=
  c.isDigit || ('a' ≤ c && c ≤ 'f') || ('A' ≤ c && c ≤ 'F')

def ofDigits (base : Nat) (run : List Char) : Nat :=
  run.foldl (fun n c => n * base + digitValue c) 0

/-- The double nearest to `mantissa * 10 ^ exponent`.  Beyond the range of doubles the answer is
infinity or zero, and no large power is formed. -/
def nearest (mantissa : Nat) (exponent : Int) : Float :=
  if mantissa = 0 then 0.0
  else
    let magnitude := (digits mantissa).length + exponent
    if magnitude > 310 then 1.0 / 0.0
    else if magnitude < -330 then 0.0
    else match exponent with
      | .ofNat e => Float.ofScientific mantissa false e
      | .negSucc e => Float.ofScientific mantissa true (e + 1)

structure Scanned where
  whole : List Char
  fraction : List Char
  negativeExponent : Bool
  exponent : List Char

def Scanned.toFloat (s : Scanned) : Float :=
  let power := (ofDigits 10 s.exponent : Int)
  let signed := if s.negativeExponent then -power else power
  nearest (ofDigits 10 (s.whole ++ s.fraction)) (signed - s.fraction.length)

end WorldScript.Number
