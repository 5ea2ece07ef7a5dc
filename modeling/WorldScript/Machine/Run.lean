import WorldScript.Machine.Transition

/-! # Runs

A run carries out instructions until the outermost body ends.  Each instruction takes one from a budget;
a body whose code has ended returns to its caller for free.
-/

namespace WorldScript

inductive Ready where
  | ended (ending : Ending) (store : Store)
  | instr (i : Instr Nat) (c : Config)

def settle (store : Store) (a : Activation) : List Pending → Ready
  | [] =>
    match a.fetch? with
    | none => .ended ⟨.ret none, a.locals⟩ store
    | some i => .instr i ⟨store, { a with position := a.position + 1 }, []⟩
  | p :: rest =>
    match a.fetch? with
    | none => settle store (p.resume none) rest
    | some i => .instr i ⟨store, { a with position := a.position + 1 }, p :: rest⟩

structure RunResult where
  outcome : Except Fault Ending
  store : Store
  /-- How many instructions may still be carried out. -/
  budget : Nat

def run (w : World) (budget : Nat) (c : Config) : RunResult :=
  match settle c.store c.active c.callers with
  | .ended ending store => ⟨.ok ending, store, budget⟩
  | .instr i ready =>
    match budget with
    | 0 => ⟨.error .instructionLimit, ready.store, 0⟩
    | left + 1 =>
      match ready.execute w i with
      | .next next => run w left next
      | .done ending store => ⟨.ok ending, store, left⟩
      | .fault f store => ⟨.error f, store, left⟩

end WorldScript
