import WorldScript.Code
import WorldScript.Label

/-! # Assembling code

Code is written in order; branches name labels, and a label is bound to the position where the next
instruction will stand.  Who only wants to know whether a body is well formed needs no code: a
`Backend` is anything that issues labels and takes instructions.
-/

namespace WorldScript

class Backend (σ : Type) where
  /-- Issues a label that was not issued before. -/
  newLabel : σ → Label × σ
  /-- Binds a label to the next position. -/
  place : σ → Label → σ
  /-- Takes the next instruction. -/
  write : σ → Instr Label → σ
  /-- Notes the source line of the instructions that follow. -/
  atLine : σ → Nat → σ

def Backend.writeAll [Backend σ] (s : σ) (code : List (Instr Label)) : σ := code.foldl Backend.write s

structure Draft where
  instr : Instr Label
  line : Nat

structure Assembly where
  drafts : Array Draft
  /-- The position of every label issued so far. -/
  targets : Array (Option Nat)
  line : Nat

namespace Assembly

def empty : Assembly := ⟨#[], #[], 0⟩

def newLabel (a : Assembly) : Label × Assembly :=
  (⟨a.targets.size⟩, { a with targets := a.targets.push none })

/-- Binds a label to the next position; the last binding counts. -/
def place (a : Assembly) (label : Label) : Assembly :=
  { a with targets := a.targets.setIfInBounds label.id (some a.drafts.size) }

def write (a : Assembly) (instr : Instr Label) : Assembly :=
  { a with drafts := a.drafts.push ⟨instr, a.line⟩ }

def atLine (a : Assembly) (line : Nat) : Assembly := { a with line }

def target (a : Assembly) (label : Label) : Except Label Nat :=
  match a.targets[label.id]? with
  | some (some position) => .ok position
  | _ => .error label

def finishEntry (a : Assembly) (d : Draft) : Except Label Entry :=
  (d.instr.retarget a.target).map fun instr => ⟨instr, d.line⟩

/-- The finished code, or the first label that some branch names and that was never bound. -/
def finish (a : Assembly) (locals : List Param) : Except Label Chunk := do
  let entries ← a.drafts.toList.mapM a.finishEntry
  return ⟨entries.toArray, locals⟩

end Assembly

instance : Backend Assembly where
  newLabel := Assembly.newLabel
  place := Assembly.place
  write := Assembly.write
  atLine := Assembly.atLine

structure LabelCount where
  issued : Nat

instance : Backend LabelCount where
  newLabel c := (⟨c.issued⟩, ⟨c.issued + 1⟩)
  place c _ := c
  write c _ := c
  atLine c _ := c

end WorldScript
