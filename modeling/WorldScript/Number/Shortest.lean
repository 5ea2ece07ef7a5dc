import WorldScript.Number.Double

/-! # Shortest digits

The fewest decimal digits that read back as the same double.  All decimals strictly inside the
rounding interval of a double read back as it; the ends belong to the interval when the
significand is even.  For one, two, … digits the two neighbours of the value on that decimal grid
are tested, and the first grid with a hit wins.
-/

namespace WorldScript.Number

structure Decimal where
  digits : Nat
  exponent : Int
deriving DecidableEq

/-- The open or closed interval of numbers that round to a positive double, in quarters of a unit
in the last place: `low * 2 ^ scale` to `high * 2 ^ scale` around `mid * 2 ^ scale`. -/
structure Interval where
  low : Nat
  mid : Nat
  high : Nat
  scale : Int
  closed : Bool

/-- The rounding interval of `significand * 2 ^ exponent`.  Below a power of two the gap to the next
smaller double is half as wide. -/
def Interval.ofParts (significand : Nat) (exponent : Int) : Interval where
  low := if significand = Nat.pow 2 fractionBits ∧ exponent ≠ leastExponent then 4 * significand - 1
    else 4 * significand - 2
  mid := 4 * significand
  high := 4 * significand + 2
  scale := exponent - 2
  closed := significand % 2 = 0

/-- Cross products of `a * 2 ^ scale` and `d * 10 ^ exponent`: the first number is the smaller one
exactly when the first component is. -/
def crossed (a : Nat) (scale : Int) (d : Nat) (exponent : Int) : Nat × Nat :=
  let left := a * Nat.pow 2 scale.toNat * Nat.pow 10 (-exponent).toNat
  let right := d * Nat.pow 10 exponent.toNat * Nat.pow 2 (-scale).toNat
  (left, right)

/-- Whether `d * 10 ^ exponent` reads back as the middle of the interval. -/
def Interval.holds (i : Interval) (d : Nat) (exponent : Int) : Bool :=
  let (low, below) := crossed i.low i.scale d exponent
  let (high, above) := crossed i.high i.scale d exponent
  if i.closed then low ≤ below && above ≤ high else low < below && above < high

/-- The greatest `d` with `d * 10 ^ exponent` not above the middle. -/
def Interval.floor (i : Interval) (exponent : Int) : Nat :=
  let (num, den) := crossed i.mid i.scale 1 exponent
  num / den

/-- Whether `(d + 1) * 10 ^ exponent` is nearer to the middle than `d * 10 ^ exponent`; of two
equally near neighbours the even one is taken. -/
def Interval.prefersUpper (i : Interval) (d : Nat) (exponent : Int) : Bool :=
  let (twiceMid, twiceHalf) := crossed (2 * i.mid) i.scale (2 * d + 1) exponent
  twiceHalf < twiceMid || (twiceHalf == twiceMid && d % 2 == 1)

def Interval.hit? (i : Interval) (exponent : Int) : Option Decimal :=
  let d := i.floor exponent
  let lower := d != 0 && i.holds d exponent
  let upper := i.holds (d + 1) exponent
  if lower && upper then
    some ⟨if i.prefersUpper d exponent then d + 1 else d, exponent⟩
  else if lower then some ⟨d, exponent⟩
  else if upper then some ⟨d + 1, exponent⟩
  else none

/-- The first hit on the grids `10 ^ exponent`, `10 ^ (exponent - 1)`, …, of which at most `tries`
are looked at. -/
def Interval.search (i : Interval) : Nat → Int → Decimal
  | 0, exponent => ⟨i.floor exponent, exponent⟩
  | tries + 1, exponent => (i.hit? exponent).getD (i.search tries (exponent - 1))

/-- The decimal exponent of the leading digit of `significand * 2 ^ exponent`, or one more. -/
def leadingExponent (significand : Nat) (exponent : Int) : Int :=
  ((significand.log2 : Int) + exponent + 1) * 30103 / 100000 + 1

/-- A decimal without trailing zeros; at most `tries` are dropped. -/
def Decimal.trimmed : Nat → Decimal → Decimal
  | 0, d => d
  | tries + 1, d =>
    if d.digits ≠ 0 ∧ d.digits % 10 = 0 then trimmed tries ⟨d.digits / 10, d.exponent + 1⟩ else d

def shortest (significand : Nat) (exponent : Int) : Decimal :=
  let found := (Interval.ofParts significand exponent).search 20 (leadingExponent significand exponent)
  found.trimmed 20

end WorldScript.Number
