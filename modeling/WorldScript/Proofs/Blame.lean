import WorldScript.Proofs.Outcome

/-! # Whom a diagnostic blames

A diagnostic is about the script, or it reports a defect of the compiler itself.  Work is followed with
what its results have in common; where it fails, the script is to blame.
-/

namespace WorldScript

variable {σ α β : Type}

def Diagnostic.BlamesScript (d : Diagnostic) : Prop := d.cause.kind ≠ .internal

@[simp] theorem Diagnostic.lexical_blames (line : Nat) (cause : Lexical) :
    (Diagnostic.lexical line cause).BlamesScript := by
  simp [BlamesScript, Diagnostic.lexical, Cause.kind]

@[simp] theorem Diagnostic.syntactic_blames (line : Nat) (cause : Syntactic) :
    (Diagnostic.syntactic line cause).BlamesScript := by
  simp [BlamesScript, Diagnostic.syntactic, Cause.kind]

@[simp] theorem Diagnostic.semantic_blames (line : Nat) (cause : Semantic) :
    (Diagnostic.semantic line cause).BlamesScript := by
  simp [BlamesScript, Diagnostic.semantic, Cause.kind]

theorem Diagnostic.defect_not_blames (line : Nat) (cause : Defect) :
    ¬(Diagnostic.defect line cause).BlamesScript := by
  simp [BlamesScript, Diagnostic.defect, Cause.kind]

def Yields (r : Except Diagnostic α) (P : α → Prop) : Prop :=
  match r with
  | .ok a => P a
  | .error d => d.BlamesScript

namespace Yields

variable {r : Except Diagnostic α} {P Q : α → Prop}

theorem mono (h : Yields r P) (hPQ : ∀ a, P a → Q a) : Yields r Q := by
  cases r with
  | ok a => exact hPQ a h
  | error d => exact h

theorem bind {f : α → Except Diagnostic β} {R : β → Prop} (h : Yields r P) (hf : ∀ a, P a → Yields (f a) R) :
    Yields (r >>= f) R := by
  cases r with
  | ok a => exact hf a h
  | error d => exact h

theorem map {f : α → β} {R : β → Prop} (h : Yields r P) (hf : ∀ a, P a → R (f a)) : Yields (r.map f) R := by
  cases r with
  | ok a => exact hf a h
  | error d => exact h

theorem of_ok {a : α} (h : Yields r P) (hr : r = .ok a) : P a := by
  subst hr
  exact h

theorem of_error {d : Diagnostic} (h : Yields r P) (hr : r = .error d) : d.BlamesScript := by
  subst hr
  exact h

end Yields

/-- What is known of each result is known of all results for a list. -/
theorem Yields.mapM {f : α → Except Diagnostic β} {R : β → Prop} {as : List α}
    (h : ∀ a ∈ as, Yields (f a) R) : Yields (as.mapM f) fun bs => ∀ b ∈ bs, R b := by
  induction as with
  | nil => exact fun b hb => by simp at hb
  | cons a rest ih =>
    rw [List.mapM_cons]
    refine (h a List.mem_cons_self).bind fun b hb => ?_
    refine (ih fun x hx => h x (List.mem_cons_of_mem _ hx)).bind fun bs hbs => ?_
    intro x hx
    obtain rfl | hx := List.mem_cons.mp hx
    · exact hb
    · exact hbs x hx

/-- Work that starts in a state with `P` gives a result and a state with `Q`, or a diagnostic about the
script. -/
def Behaves (P : σ → Prop) (x : EStateM Diagnostic σ α) (Q : α → σ → Prop) : Prop :=
  ∀ s, P s → match x s with
    | .ok a t => Q a t
    | .error d _ => d.BlamesScript

namespace Behaves

variable {P P' : σ → Prop} {x : EStateM Diagnostic σ α} {Q Q' : α → σ → Prop} {R : β → σ → Prop}

theorem pure {a : α} (h : ∀ s, P s → Q a s) : Behaves P (pure a : EStateM Diagnostic σ α) Q := h

theorem bind {f : α → EStateM Diagnostic σ β} (hx : Behaves P x Q) (hf : ∀ a, Behaves (Q a) (f a) R) :
    Behaves P (x >>= f) R := by
  intro s hs
  have hxs := hx s hs
  cases h : x s with
  | ok a t =>
    rw [h] at hxs
    rw [run_bind_of_ok h]
    exact hf a t hxs
  | error d t =>
    rw [h] at hxs
    rw [run_bind_of_error h]
    exact hxs

theorem throw {d : Diagnostic} (h : d.BlamesScript) :
    Behaves P (throw d : EStateM Diagnostic σ α) Q := fun _ _ => h

theorem modify {f : σ → σ} {Q : Unit → σ → Prop} (h : ∀ s, P s → Q () (f s)) :
    Behaves P (modify f : EStateM Diagnostic σ Unit) Q := h

theorem get_bind {f : σ → EStateM Diagnostic σ β} (h : ∀ s, P s → Behaves (s = ·) (f s) R) :
    Behaves P (get >>= f) R :=
  fun s hs => h s hs s rfl

theorem mono (h : Behaves P x Q) (hP : ∀ s, P' s → P s) (hQ : ∀ a s, Q a s → Q' a s) : Behaves P' x Q' := by
  intro s hs
  have hx := h s (hP s hs)
  cases hxs : x s with
  | ok a t =>
    rw [hxs] at hx
    exact hQ a t hx
  | error d t =>
    rw [hxs] at hx
    exact hx

theorem of_ok {s t : σ} {a : α} (h : Behaves P x Q) (hs : P s) (hx : x s = .ok a t) : Q a t := by
  have hxs := h s hs
  rw [hx] at hxs
  exact hxs

theorem of_error {s t : σ} {d : Diagnostic} (h : Behaves P x Q) (hs : P s) (hx : x s = .error d t) :
    d.BlamesScript := by
  have hxs := h s hs
  rw [hx] at hxs
  exact hxs

end Behaves

end WorldScript
