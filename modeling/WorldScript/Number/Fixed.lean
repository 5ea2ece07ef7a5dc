import WorldScript.Number.Double

/-! # Fixed decimal places

A double is written with a fixed number of places.  The exact binary value is rounded once, a half
going to the even neighbour; no exponent is ever used, and a negative number keeps its sign even
when all its digits are zero.
-/

namespace WorldScript.Number

def scaled (places significand : Nat) (exponent : Int) : Nat :=
  let (num, den) := ratio significand exponent
  roundHalfEven (num * Nat.pow 10 places) den

def pointed (places n : Nat) : List Char :=
  digits (n / Nat.pow 10 places) ++ '.' :: padLeft places '0' (digits (n % Nat.pow 10 places))

def fixed (places : Nat) (x : Float) : String :=
  match Parts.ofFloat x with
  | .nan => "NaN"
  | .infinite negative => signText negative ++ "inf"
  | .finite negative significand exponent =>
    signText negative ++ String.ofList (pointed places (scaled places significand exponent))

end WorldScript.Number
