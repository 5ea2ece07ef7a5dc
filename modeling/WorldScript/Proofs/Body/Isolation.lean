import WorldScript.Proofs.Body.Congruence
import WorldScript.Proofs.Outcome
import WorldScript.Script.Compile

/-! # Bodies do not get in each other's way

Work on a body opens scopes, declares locals and may end anywhere, with all of that half done.  What the
script declares is out of its reach, and the next body starts from nothing else.  So it makes no difference
to a body which others were worked on before it, or how they ended.
-/

namespace WorldScript

def stateAfter {ε σ α : Type} : EStateM.Result ε σ α → σ
  | .ok _ s => s
  | .error _ s => s

namespace Body

open BodyM

variable {σ α β : Type}

def Spares (x : BodyM σ α) : Prop := ∀ s, (stateAfter (x s)).names.beginBody = s.names.beginBody

namespace Spares

theorem pure (a : α) : Spares (pure a : BodyM σ α) := fun _ => rfl

theorem throw (d : Diagnostic) : Spares (throw d : BodyM σ α) := fun _ => rfl

theorem bind {x : BodyM σ α} {f : α → BodyM σ β} (hx : Spares x) (hf : ∀ a, Spares (f a)) :
    Spares (x >>= f) := by
  intro s
  have hxs := hx s
  cases h : x s with
  | ok a t =>
    rw [h] at hxs
    rw [run_bind_of_ok h]
    exact (hf a t).trans hxs
  | error d t =>
    rw [h] at hxs
    rw [run_bind_of_error h]
    exact hxs

theorem get {f : BodyState σ → BodyM σ β} (hf : ∀ s, Spares (f s)) : Spares (get >>= f) := fun s => hf s s

theorem modify {f : BodyState σ → BodyState σ} (hf : ∀ s, (f s).names.beginBody = s.names.beginBody) :
    Spares (modify f) := hf

end Spares

theorem lift_spares (r : Except Diagnostic α) : Spares (lift r : BodyM σ α) := by
  cases r with
  | ok a => exact .pure a
  | error d => exact .throw d

theorem inScope_spares {work : BodyM σ Unit} (h : Spares work) : Spares (inScope work) :=
  .bind (.modify fun _ => rfl) fun _ => .bind h fun _ => .modify fun _ => rfl

theorem declareLocal_beginBody {n m : Names} {name : String} {ty : Ty} {line slot : Nat}
    (h : n.declareLocal name ty line = .ok (slot, m)) : m.beginBody = n.beginBody := by
  unfold Names.declareLocal at h
  split at h
  · cases h
  · split at h
    · cases h
    · cases h
      rfl

theorem declare_spares (name : String) (ty : Ty) (line : Nat) :
    Spares (declare name ty line : BodyM σ Nat) := by
  intro s
  unfold declare
  rw [run_get_bind]
  cases h : s.names.declareLocal name ty line with
  | error d => rfl
  | ok r => exact declareLocal_beginBody h

variable [Backend σ]

theorem write_spares (code : List (Instr Label)) : Spares (write code : BodyM σ Unit) := .modify fun _ => rfl

theorem atLine_spares (line : Nat) : Spares (atLine line : BodyM σ Unit) := .modify fun _ => rfl

theorem newLabel_spares (purpose : LabelPurpose) (construct : String) (line : Nat) :
    Spares (newLabel purpose construct line : BodyM σ Label) := fun _ => rfl

theorem mark_spares (label : Label) (line : Nat) : Spares (mark label line : BodyM σ Unit) := by
  intro s
  unfold mark
  rw [run_get_bind]
  cases s.book.mark label line <;> rfl

/-- Every step of the work leaves what the script declares alone. -/
theorem stepwise_spares : Stepwise fun {_} (x : BodyM σ _) => Spares x where
  pure := .pure
  throw := .throw
  bind := .bind
  reads _ hf := .get hf
  write := write_spares
  newLabel := newLabel_spares
  mark := mark_spares
  atLine := atLine_spares
  declare := declare_spares
  insertJump _ _ := .modify fun _ => rfl

theorem congruence_spares (ctx : BodyContext) :
    Congruence ctx ctx fun {_} (x _ : BodyM σ _) => Spares x where
  pure := .pure
  bind := .bind
  throw := .throw
  inScope := inScope_spares
  atLine := atLine_spares
  newLabel := newLabel_spares
  jumpLabel := stepwise_spares.jumpLabel
  mark := mark_spares
  jump _ := write_spares _
  armCondition := stepwise_spares.armCondition ctx
  loopCondition term line _ _ _ _ h :=
    .bind (stepwise_spares.condition ctx term line) fun _ => .bind (write_spares _) fun _ => h
  effects := stepwise_spares.effects ctx
  declaration := stepwise_spares.declaration ctx
  expression term line := stepwise_spares.expression ctx term line line
  returning := stepwise_spares.returning ctx
  stateChange := stepwise_spares.stateChange ctx

/-- What the script declares is the same after the work on a body, also if it fails. -/
theorem compileTree_spares (ctx : BodyContext) (params : List Param) (opening stop : Nat)
    (tokens : List Token) : Spares (compileTree ctx params opening stop tokens : BodyM σ (List Param)) := by
  refine .bind (.modify fun _ => rfl) fun _ =>
    .bind (stepwise_spares.declareParams opening params) fun _ => ?_
  refine .bind ((congruence_spares ctx).statements none _) fun _ =>
    .bind (stepwise_spares.finish ctx ?_) fun _ => ?_
  · exact .bind (.modify fun _ => rfl) fun _ => .get fun _ => lift_spares _
  · exact .get fun _ => .pure _

end Body

end WorldScript
