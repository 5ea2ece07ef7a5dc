import WorldScript.Diagnostic
import WorldScript.Table

/-! # Books of labels

A body accounts for every label it issues: where it came from, and the line at which it was bound.
-/

namespace WorldScript

instance : LT Label := ⟨fun a b => a.id < b.id⟩

instance : DecidableLT Label := fun a b => inferInstanceAs (Decidable (a.id < b.id))

structure LabelRecord where
  origin : LabelOrigin
  markedAt : Option Nat
deriving DecidableEq

structure LabelBook where
  records : Table Label LabelRecord

namespace LabelBook

def empty : LabelBook := ⟨.empty⟩

def record (b : LabelBook) (label : Label) (origin : LabelOrigin) : LabelBook :=
  ⟨b.records.insert label ⟨origin, none⟩⟩

/-- The book in which `label` is bound at `line`; a label is bound once. -/
def mark (b : LabelBook) (label : Label) (line : Nat) : Except Diagnostic LabelBook :=
  match b.records.get? label with
  | none => .error (.defect line (.unallocatedLabel label))
  | some r =>
    match r.markedAt with
    | some first => .error (.defect line (.labelMarkedTwice label r.origin first))
    | none => .ok ⟨b.records.insert label { r with markedAt := some line }⟩

def isMarked (b : LabelBook) (label : Label) : Bool :=
  (b.records.get? label).any fun r => r.markedAt.isSome

def purpose? (b : LabelBook) (label : Label) : Option LabelPurpose :=
  (b.records.get? label).map fun r => r.origin.purpose

def unmarked (b : LabelBook) (label : Label) (line : Nat) : Diagnostic :=
  .defect line (.unmarkedLabel label ((b.records.get? label).map LabelRecord.origin))

def expectMarked (b : LabelBook) (labels : List Label) (line : Nat) : Except Diagnostic Unit :=
  match labels.find? fun l => !b.isMarked l with
  | some l => .error (b.unmarked l line)
  | none => .ok ()

def expectAllMarked (b : LabelBook) (line : Nat) : Except Diagnostic Unit :=
  match b.records.entries.find? fun e => e.2.markedAt.isNone with
  | some (l, _) => .error (b.unmarked l line)
  | none => .ok ()

end LabelBook

end WorldScript
