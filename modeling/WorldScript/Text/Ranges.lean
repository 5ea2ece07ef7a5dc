/-! # Sets of characters

A property of few characters is stored as the list of its code point ranges, both ends included; one of many
characters as the lengths of the runs of code points that in turn lack it and have it.
-/

namespace WorldScript.Text

def inRanges (ranges : List (Nat × Nat)) (c : Char) : Bool :=
  ranges.any fun (low, high) => low ≤ c.toNat && c.toNat ≤ high

/-- Whether the `n`-th code point from here on is in the set, where `inside` says that of the first run. -/
def inRunsFrom (inside : Bool) : List Nat → Nat → Bool
  | [], _ => false
  | run :: rest, n => if n < run then inside else inRunsFrom (!inside) rest (n - run)

def inRuns (runs : List Nat) (c : Char) : Bool := inRunsFrom false runs c.toNat

end WorldScript.Text
