/-! # Doubles as exact numbers

A finite double is a sign, a natural significand and a binary exponent.  Every text form of a
double in this library is computed from these parts in exact arithmetic.
-/

namespace WorldScript.Number

/-- What the sixty-four bits of a double stand for.  A finite double is
`significand * 2 ^ exponent`, negated when `negative` holds. -/
inductive Parts where
  | nan
  | infinite (negative : Bool)
  | finite (negative : Bool) (significand : Nat) (exponent : Int)
deriving DecidableEq

def fractionBits : Nat := 52

def leastExponent : Int := -1074

def Parts.ofBits (bits : Nat) : Parts :=
  let negative := bits / Nat.pow 2 63 % 2 == 1
  let biased := bits / Nat.pow 2 fractionBits % 2048
  let fraction := bits % Nat.pow 2 fractionBits
  if biased = 2047 then
    if fraction = 0 then .infinite negative else .nan
  else if biased = 0 then .finite negative fraction leastExponent
  else .finite negative (fraction + Nat.pow 2 fractionBits) ((biased : Int) - 1075)

def Parts.ofFloat (x : Float) : Parts := Parts.ofBits x.toBits.toNat

/-- The double nearest to a whole number; of two that are equally near, the one with the even
significand. -/
def ofInt (n : Int) : Float := .ofModel (.ofInt n)

def signText (negative : Bool) : String := if negative then "-" else ""

def ratio (significand : Nat) (exponent : Int) : Nat × Nat :=
  match exponent with
  | .ofNat e => (significand * Nat.pow 2 e, 1)
  | .negSucc e => (significand, Nat.pow 2 (e + 1))

def roundHalfEven (num den : Nat) : Nat :=
  let quotient := num / den
  let twice := 2 * (num % den)
  if twice < den then quotient
  else if den < twice then quotient + 1
  else if quotient % 2 = 0 then quotient else quotient + 1

def digits (n : Nat) : List Char := Nat.toDigits 10 n

def padLeft (width : Nat) (fill : Char) (text : List Char) : List Char :=
  List.replicate (width - text.length) fill ++ text

end WorldScript.Number
