import Mathlib.Data.List.Nodup
import WorldScript.Proofs.Body.Layout
import WorldScript.Proofs.Expr.Vocabulary
import WorldScript.Proofs.Stmt.Leaves

/-! # Accounts of labels

Between two steps of the work on a body, the labels that are issued and not yet bound are those that
open constructs owe and those of jumps whose label the script has yet to define.  A construct binds
what it owes, so that nothing is owed at the end, and every branch leads somewhere.
-/

namespace WorldScript

variable {V : Vocabulary}

instance : IsStrictTotalOrder Label (· < ·) where
  irrefl a := Nat.lt_irrefl a.id
  trans _ _ _ h h' := Nat.lt_trans h h'
  trichotomous _ _ h h' := congrArg Label.mk (Nat.le_antisymm (Nat.not_lt.mp h') (Nat.not_lt.mp h))

def LabelBook.Unmarked (b : LabelBook) (l : Label) : Prop :=
  ∃ r, b.records.get? l = some r ∧ r.markedAt = none

theorem LabelBook.Unmarked.mark {b : LabelBook} {l : Label} (h : b.Unmarked l) (line : Nat) :
    ∃ b', b.mark l line = .ok b' := by
  obtain ⟨r, hr, hm⟩ := h
  exact ⟨_, by simp [LabelBook.mark, hr, hm]; rfl⟩

/-- The account of the labels of a body: those in `K` are issued, and those in `P` are to be bound by
constructs that are open. -/
structure Ledger (K P : List Label) (book : LabelBook) (jumps : Table String JumpLabel)
    (targets : Array (Option Nat)) : Prop where
  sorted : book.records.Sorted
  issued : ∀ l : Label, l.id < targets.size ↔ ∃ r, book.records.get? l = some r
  bound : ∀ l : Label, book.isMarked l = true → ∃ p, targets[l.id]? = some (some p)
  known : ∀ l ∈ K, l.id < targets.size
  distinct : P.Nodup
  owed : ∀ l ∈ P, book.Unmarked l
  undefined : ∀ name j, jumps.get? name = some j → j.definedAt = none → book.Unmarked j.label ∧ j.label ∉ P
  named : ∀ name j, jumps.get? name = some j → j.label.id < targets.size
  once : ∀ name other j k, jumps.get? name = some j → jumps.get? other = some k →
    j.label = k.label → name = other
  unmarked : ∀ l, book.Unmarked l → l ∈ P ∨ ∃ name j, jumps.get? name = some j ∧ j.label = l ∧
    j.definedAt = none

namespace Ledger

variable {K P A B : List Label} {l : Label} {book : LabelBook} {jumps : Table String JumpLabel}
  {targets : Array (Option Nat)} {name : String}

theorem start : Ledger [] [] .empty .empty #[] where
  sorted := Table.sorted_empty
  issued l := by simp [LabelBook.empty, Table.get?_empty]
  bound l h := by cases h
  known := by simp
  distinct := .nil
  owed := by simp
  undefined _ _ h := by cases h
  named _ _ h := by cases h
  once _ _ _ _ h := by cases h
  unmarked l h := by
    obtain ⟨r, hr, -⟩ := h
    cases hr

theorem forget (h : Ledger K P book jumps targets) {K' : List Label} (hK : K' ⊆ K) :
    Ledger K' P book jumps targets :=
  { h with known := fun l hl => h.known l (hK hl) }

/-- A fresh label is owed. -/
theorem issue (h : Ledger K P book jumps targets) (origin : LabelOrigin) :
    Ledger (⟨targets.size⟩ :: K) (⟨targets.size⟩ :: P) (book.record ⟨targets.size⟩ origin) jumps
      (targets.push none) := by
  have hget (l : Label) : (book.record ⟨targets.size⟩ origin).records.get? l =
      if l = ⟨targets.size⟩ then some ⟨origin, none⟩ else book.records.get? l := Table.get?_insert _ _ _ _
  -- the fresh label has the next number, so it is none of those before
  have hne {l : Label} (hl : l.id < targets.size) : l ≠ ⟨targets.size⟩ := by
    rintro rfl
    exact Nat.lt_irrefl _ hl
  have hkeep {l : Label} (hl : book.Unmarked l) : l.id < targets.size ∧
      (book.record ⟨targets.size⟩ origin).Unmarked l := by
    obtain ⟨r, hr, hm⟩ := hl
    have hlt := (h.issued l).mpr ⟨r, hr⟩
    exact ⟨hlt, r, by rw [hget, if_neg (hne hlt), hr], hm⟩
  constructor
  case sorted => exact h.sorted.insert _ _
  case issued =>
    intro l
    rw [hget, Array.size_push]
    by_cases hl : l = ⟨targets.size⟩
    · simp [hl]
    · have hid : l.id ≠ targets.size := fun he => hl (congrArg Label.mk he)
      rw [if_neg hl, ← h.issued l]
      omega
  case bound =>
    intro l hl
    unfold LabelBook.isMarked at hl
    rw [hget] at hl
    split at hl
    · cases hl
    · obtain ⟨p, hp⟩ := h.bound l hl
      obtain ⟨hlt, -⟩ := Array.getElem?_eq_some_iff.mp hp
      exact ⟨p, by rw [Array.getElem?_push, if_neg (Nat.ne_of_lt hlt), hp]⟩
  case known =>
    intro l hl
    rw [Array.size_push]
    obtain rfl | hl := List.mem_cons.mp hl
    · exact Nat.lt_succ_self _
    · exact Nat.lt_succ_of_lt (h.known l hl)
  case distinct =>
    refine List.nodup_cons.mpr ⟨fun hmem => ?_, h.distinct⟩
    exact hne (hkeep (h.owed _ hmem)).1 rfl
  case owed =>
    intro l hl
    obtain rfl | hl := List.mem_cons.mp hl
    · exact ⟨⟨origin, none⟩, by rw [hget, if_pos rfl], rfl⟩
    · exact (hkeep (h.owed l hl)).2
  case undefined =>
    intro name j hj hd
    obtain ⟨hu, hn⟩ := h.undefined name j hj hd
    obtain ⟨hlt, hu⟩ := hkeep hu
    exact ⟨hu, List.not_mem_cons_of_ne_of_not_mem (hne hlt) hn⟩
  case named =>
    intro name j hj
    rw [Array.size_push]
    exact Nat.lt_succ_of_lt (h.named name j hj)
  case once => exact h.once
  case unmarked =>
    rintro l ⟨r, hr, hm⟩
    rw [hget] at hr
    split at hr
    · rename_i hl
      exact .inl (hl ▸ List.mem_cons_self)
    · exact (h.unmarked l ⟨r, hr, hm⟩).imp_left (List.mem_cons_of_mem _)

/-- A label that is bound is no longer owed. -/
theorem mark (h : Ledger K (A ++ l :: B) book jumps targets) {book' : LabelBook} {line : Nat}
    (hb : book.mark l line = .ok book') (position : Nat) :
    Ledger K (A ++ B) book' jumps (targets.setIfInBounds l.id (some position)) := by
  obtain ⟨r, hr, hm, rfl⟩ := LabelBook.mark_ok hb
  have hlt : l.id < targets.size := (h.issued l).mpr ⟨r, hr⟩
  obtain ⟨hnot, hnodup⟩ := List.nodup_cons.mp (List.nodup_middle.mp h.distinct)
  have hsub {m : Label} (hm : m ∈ A ++ B) : m ∈ A ++ l :: B ∧ m ≠ l := by
    refine ⟨?_, fun he => hnot (he ▸ hm)⟩
    rw [List.mem_append] at hm
    rw [List.mem_append, List.mem_cons]
    exact hm.imp_right .inr
  have hget (m : Label) : (book.records.insert l { r with markedAt := some line }).get? m =
      if m = l then some { r with markedAt := some line } else book.records.get? m :=
        Table.get?_insert _ _ _ _
  have hkeep {m : Label} (hu : book.Unmarked m) (hne : m ≠ l) :
      LabelBook.Unmarked ⟨book.records.insert l { r with markedAt := some line }⟩ m := by
    obtain ⟨q, hq, hqm⟩ := hu
    exact ⟨q, by rw [hget, if_neg hne, hq], hqm⟩
  constructor
  case sorted => exact h.sorted.insert _ _
  case issued =>
    intro m
    rw [hget, Array.size_setIfInBounds, h.issued]
    by_cases hml : m = l
    · simp [hml, hr]
    · rw [if_neg hml]
  case bound =>
    intro m hmm
    rw [Array.getElem?_setIfInBounds]
    by_cases hml : m = l
    · exact ⟨position, by simp [hml, hlt]⟩
    · have hid : l.id ≠ m.id := fun he => hml (congrArg Label.mk he.symm)
      unfold LabelBook.isMarked at hmm
      rw [hget, if_neg hml] at hmm
      rw [if_neg hid]
      exact h.bound m hmm
  case known =>
    intro m hmK
    rw [Array.size_setIfInBounds]
    exact h.known m hmK
  case distinct => exact hnodup
  case owed =>
    intro m hmP
    obtain ⟨hmem, hne⟩ := hsub hmP
    exact hkeep (h.owed m hmem) hne
  case undefined =>
    intro name j hj hd
    obtain ⟨hu, hn⟩ := h.undefined name j hj hd
    have hne : j.label ≠ l := fun he => hn (by simp [he])
    exact ⟨hkeep hu hne, fun hmem => hn (hsub hmem).1⟩
  case named =>
    intro name j hj
    rw [Array.size_setIfInBounds]
    exact h.named name j hj
  case once => exact h.once
  case unmarked =>
    rintro m ⟨q, hq, hqm⟩
    rw [hget] at hq
    split at hq
    · cases hq
      cases hqm
    · rename_i hml
      refine (h.unmarked m ⟨q, hq, hqm⟩).imp_left fun hmem => ?_
      simpa [hml] using hmem

/-- A label that is owed becomes the label of a name that had none. -/
theorem adopt (h : Ledger K (l :: P) book jumps targets) (hnew : jumps.get? name = none) (line : Nat)
    (hfresh : ∀ other j, jumps.get? other = some j → j.label ≠ l) :
    Ledger K P book (jumps.insert name ⟨l, line, none⟩) targets := by
  obtain ⟨hnot, hnodup⟩ := List.nodup_cons.mp h.distinct
  have hget (other : String) : (jumps.insert name ⟨l, line, none⟩).get? other =
      if other = name then some ⟨l, line, none⟩ else jumps.get? other := Table.get?_insert _ _ _ _
  have hsplit {other : String} {j : JumpLabel}
      (hj : (jumps.insert name ⟨l, line, none⟩).get? other = some j) :
      other = name ∧ j.label = l ∨ jumps.get? other = some j := by
    rw [hget] at hj
    split at hj
    · rename_i ho
      cases hj
      exact .inl ⟨ho, rfl⟩
    · exact .inr hj
  constructor
  case sorted => exact h.sorted
  case issued => exact h.issued
  case bound => exact h.bound
  case known => exact h.known
  case distinct => exact hnodup
  case owed => exact fun m hm => h.owed m (List.mem_cons_of_mem _ hm)
  case undefined =>
    intro other j hj hd
    obtain ⟨-, hl⟩ | hj := hsplit hj
    · rw [hl]
      exact ⟨h.owed l List.mem_cons_self, hnot⟩
    · obtain ⟨hu, hn⟩ := h.undefined other j hj hd
      exact ⟨hu, fun hmem => hn (List.mem_cons_of_mem _ hmem)⟩
  case named =>
    intro other j hj
    obtain ⟨-, hl⟩ | hj := hsplit hj
    · obtain ⟨r, hr, -⟩ := h.owed l List.mem_cons_self
      exact hl ▸ (h.issued l).mpr ⟨r, hr⟩
    · exact h.named other j hj
  case once =>
    intro n m j k hj hk he
    obtain ⟨hn, hjl⟩ | hj := hsplit hj
    · obtain ⟨hm, -⟩ | hk := hsplit hk
      · exact hn.trans hm.symm
      · exact absurd (he.symm.trans hjl) (hfresh m k hk)
    · obtain ⟨-, hkl⟩ | hk := hsplit hk
      · exact absurd (he.trans hkl) (hfresh n j hj)
      · exact h.once n m j k hj hk he
  case unmarked =>
    intro m hm
    obtain hmem | ⟨other, j, hj, hl, hd⟩ := h.unmarked m hm
    · obtain rfl | hmem := List.mem_cons.mp hmem
      · exact .inr ⟨name, _, by rw [hget, if_pos rfl], rfl, rfl⟩
      · exact .inl hmem
    · have hne : other ≠ name := by
        rintro rfl
        rw [hnew] at hj
        cases hj
      exact .inr ⟨other, j, by rw [hget, if_neg hne, hj], hl, hd⟩

/-- A name whose label gets its definition owes the label until it is bound. -/
theorem define (h : Ledger K P book jumps targets) {j : JumpLabel} (hj : jumps.get? name = some j)
    (hd : j.definedAt = none) (line : Nat) :
    Ledger K (j.label :: P) book (jumps.insert name { j with definedAt := some line }) targets := by
  obtain ⟨hu, hn⟩ := h.undefined name j hj hd
  have hget (other : String) : (jumps.insert name { j with definedAt := some line }).get? other =
      if other = name then some { j with definedAt := some line } else jumps.get? other :=
        Table.get?_insert _ _ _ _
  -- each name keeps its label
  have hsplit {other : String} {k : JumpLabel}
      (hk : (jumps.insert name { j with definedAt := some line }).get? other =
      some k) : ∃ k', jumps.get? other = some k' ∧ k'.label = k.label ∧ (other ≠ name → k' = k) ∧
        (other = name → k.definedAt ≠ none) := by
    rw [hget] at hk
    split at hk
    · rename_i ho
      cases hk
      exact ⟨j, ho ▸ hj, rfl, fun hne => absurd ho hne, fun _ => Option.some_ne_none line⟩
    · rename_i ho
      exact ⟨k, hk, rfl, fun _ => rfl, fun he => absurd he ho⟩
  constructor
  case sorted => exact h.sorted
  case issued => exact h.issued
  case bound => exact h.bound
  case known => exact h.known
  case distinct => exact List.nodup_cons.mpr ⟨hn, h.distinct⟩
  case owed =>
    intro m hm
    obtain rfl | hm := List.mem_cons.mp hm
    · exact hu
    · exact h.owed m hm
  case undefined =>
    intro other k hk hkd
    obtain ⟨k', hk', -, hsame, hdefined⟩ := hsplit hk
    have hne : other ≠ name := fun he => hdefined he hkd
    obtain rfl := hsame hne
    obtain ⟨hku, hkn⟩ := h.undefined other k' hk' hkd
    refine ⟨hku, List.not_mem_cons_of_ne_of_not_mem (fun he => ?_) hkn⟩
    exact hne (h.once other name k' j hk' hj he)
  case named =>
    intro other k hk
    obtain ⟨k', hk', hl, -⟩ := hsplit hk
    exact hl ▸ h.named other k' hk'
  case once =>
    intro n m k q hk hq he
    obtain ⟨k', hk', hkl, -⟩ := hsplit hk
    obtain ⟨q', hq', hql, -⟩ := hsplit hq
    exact h.once n m k' q' hk' hq' (hkl.trans (he.trans hql.symm))
  case unmarked =>
    intro m hm
    obtain hmem | ⟨other, k, hk, hl, hkd⟩ := h.unmarked m hm
    · exact .inl (List.mem_cons_of_mem _ hmem)
    · by_cases ho : other = name
      · have hkj : k = j := Option.some.inj ((ho ▸ hk).symm.trans hj)
        exact .inl (by rw [← hl, hkj]; exact List.mem_cons_self)
      · exact .inr ⟨other, k, by rw [hget, if_neg ho, hk], hl, hkd⟩

/-- Where nothing is owed and every name has its definition, every label that was issued is bound. -/
theorem settled (h : Ledger K [] book jumps targets) (hj : ∀ e ∈ jumps.entries, e.2.definedAt ≠ none)
    (l : Label) : ¬ book.Unmarked l := by
  intro hu
  obtain hmem | ⟨name, j, hget, -, hd⟩ := h.unmarked l hu
  · cases hmem
  · exact hj _ (Table.mem_of_get? hget) hd

end Ledger

/-- The account is in order, and code keeps to a vocabulary and branches to labels that are issued.
Besides the scope of the body, `depth` scopes are open. -/
structure BodyState.Steady (V : Vocabulary) (K P : List Label) (depth : Nat) (s : BodyState Assembly) :
    Prop where
  ledger : Ledger K P s.book s.jumps s.backend.targets
  written : ∀ i ∈ s.code, i.Within V ∧ ∀ l ∈ i.target?, l.id < s.backend.targets.size
  scopes : s.names.scopes.length = depth + 1

structure BodyState.Finished (V : Vocabulary) (s : BodyState Assembly) : Prop where
  bound : ∀ i ∈ s.code, i.Within V ∧ ∀ l ∈ i.target?, ∃ p, s.Binds l p
  marked : ∀ l r, s.book.records.get? l = some r → r.markedAt ≠ none

namespace Body

open BodyM

variable {V : Vocabulary} {K P P' A B : List Label} {n : Nat} {ctx : BodyContext} {α : Type}
  {Q : BodyState Assembly → Prop} {code : List (Instr Label)} {label : Label}

/-- Work that leaves an account with the labels `P'` to be bound. -/
abbrev Keeps (V : Vocabulary) (K P P' : List Label) (n : Nat) {α : Type} (x : BodyM Assembly α) : Prop :=
  Behaves (BodyState.Steady V K P n) x fun _ => BodyState.Steady V K P' n

theorem lift_behaves {R : α → Prop} {r : Except Diagnostic α} (h : Yields r R) :
    Behaves Q (lift r) fun a s => Q s ∧ R a := by
  intro s hs
  cases r with
  | ok a => exact ⟨hs, h⟩
  | error d => exact h

theorem atLine_keeps {line : Nat} : Keeps V K P P n (atLine line) :=
  .modify fun _ hs => ⟨hs.ledger, hs.written, hs.scopes⟩

theorem write_keeps (hc : ∀ i ∈ code, i.Within V ∧ ∀ l ∈ i.target?, l ∈ K) :
    Keeps V K P P n (write code) := by
  refine .modify fun s hs => ?_
  obtain ⟨hd, ht⟩ := writeAll_drafts s.backend code
  refine ⟨?_, ?_, hs.scopes⟩
  · change Ledger K P s.book s.jumps (Backend.writeAll s.backend code).targets
    rw [ht]
    exact hs.ledger
  · intro i hi
    replace hi : i ∈ s.code ++ code := hd ▸ hi
    change _ ∧ ∀ l ∈ i.target?, l.id < (Backend.writeAll s.backend code).targets.size
    rw [ht]
    obtain hi | hi := List.mem_append.mp hi
    · exact hs.written i hi
    · obtain ⟨hw, hl⟩ := hc i hi
      exact ⟨hw, fun l htl => hs.ledger.known l (hl l htl)⟩

theorem straight_keeps (hc : StraightCode V code) : Keeps V K P P n (write code) := by
  refine write_keeps fun i hi => ?_
  obtain ⟨hw, ht⟩ := hc i hi
  exact ⟨hw, by simp [ht]⟩

theorem plain_keeps (i : Instr Label) (hi : i.Within V) (ht : i.target? = none) :
    Keeps V K P P n (write [i]) :=
  straight_keeps (.one hi ht)

theorem jump_keeps (h : label ∈ K) : Keeps V K P P n (write [.jump label]) :=
  write_keeps fun i hi => by
    obtain rfl := List.mem_singleton.mp hi
    exact ⟨trivial, fun l hl => Option.some.inj hl ▸ h⟩

theorem jumpIfFalse_keeps (h : label ∈ K) : Keeps V K P P n (write [.jumpIfFalse label]) :=
  write_keeps fun i hi => by
    obtain rfl := List.mem_singleton.mp hi
    exact ⟨trivial, fun l hl => Option.some.inj hl ▸ h⟩

theorem newLabel_owes (purpose : LabelPurpose) (construct : String) (line : Nat) :
    Behaves (BodyState.Steady V K P n) (newLabel purpose construct line) fun l =>
      BodyState.Steady V (l :: K) (l :: P) n := by
  intro s hs
  refine ⟨hs.ledger.issue ⟨purpose, construct, line⟩, ?_, hs.scopes⟩
  intro i hi
  obtain ⟨hw, hl⟩ := hs.written i hi
  refine ⟨hw, fun l htl => ?_⟩
  change l.id < (s.backend.targets.push none).size
  rw [Array.size_push]
  exact Nat.lt_succ_of_lt (hl l htl)

theorem mark_settles (A B : List Label) (label : Label) (line : Nat) :
    Keeps V K (A ++ label :: B) (A ++ B) n (mark label line) := by
  intro s hs
  obtain ⟨book, hb⟩ := (hs.ledger.owed label (by simp)).mark line
  have hmark : mark label line s = .ok () { s with book, backend := Backend.place s.backend label } := by
    unfold mark
    rw [run_get_bind, hb]
    rfl
  rw [hmark]
  refine ⟨hs.ledger.mark hb _, ?_, hs.scopes⟩
  intro i hi
  obtain ⟨hw, hl⟩ := hs.written i hi
  refine ⟨hw, fun l htl => ?_⟩
  change l.id < (s.backend.targets.setIfInBounds label.id _).size
  rw [Array.size_setIfInBounds]
  exact hl l htl

theorem declare_keeps (name : String) (ty : Ty) (line : Nat) : Keeps V K P P n (declare name ty line) := by
  refine .get_bind fun s hs => ?_
  have hdeclared : Yields (s.names.declareLocal name ty line) fun r => r.2.scopes.length = n + 1 := by
    have hlen := hs.scopes
    unfold Names.declareLocal
    cases hsc : s.names.scopes with
    | nil => simp [hsc] at hlen
    | cons scope outer =>
      dsimp only
      split
      · exact Diagnostic.semantic_blames _ _
      · rw [hsc] at hlen
        exact hlen
  refine .bind (lift_behaves hdeclared) ?_
  rintro ⟨slot, names⟩
  rintro _ ⟨rfl, hscopes⟩
  exact ⟨hs.ledger, hs.written, hscopes⟩

/-- What is known of more labels is known of some of them. -/
theorem Keeps.forget {K' : List Label} {x : BodyM Assembly α} (hK : K ⊆ K')
    (h : Behaves Q x fun _ => BodyState.Steady V K' P n) : Behaves Q x fun _ => BodyState.Steady V K P n :=
  h.mono (fun _ hs => hs) fun _ _ hs => ⟨hs.ledger.forget hK, hs.written, hs.scopes⟩

theorem inScope_keeps {work : BodyM Assembly Unit} (h : Keeps V K P P (n + 1) work) :
    Keeps V K P P n (inScope work) := by
  have hopen : Behaves (BodyState.Steady V K P n) (changeNames Names.openScope) fun _ =>
      BodyState.Steady V K P (n + 1) :=
    .modify fun s hs => ⟨hs.ledger, hs.written, congrArg (· + 1) hs.scopes⟩
  refine .bind hopen fun _ => .bind h fun _ => .modify fun s hs => ⟨hs.ledger, hs.written, ?_⟩
  change s.names.scopes.tail.length = n + 1
  rw [List.length_tail, hs.scopes]
  rfl

theorem env_keeps : Behaves (BodyState.Steady V K P n) (env ctx) fun env s =>
    s.Steady V K P n ∧ env = ⟨ctx.registry, ctx.visibility, s.names⟩ :=
  fun _ hs => ⟨hs, rfl⟩

section Expressions

variable (hV : V.Covers ctx.registry ctx.visibility) {term : Term} {e : Expr}

include hV

theorem elaborate_keeps (ht : term.All V.leaves) :
    Behaves (BodyState.Steady V K P n) (elaborate ctx term) fun e s => s.Steady V K P n ∧ e.Within V :=
  .bind env_keeps fun env s hs => by
    obtain ⟨hs, rfl⟩ := hs
    exact lift_behaves (Env.elaborate_yields hV term ht) s hs

theorem value_keeps (ht : term.All V.leaves) (line : Nat) :
    Behaves (BodyState.Steady V K P n) (value ctx term line) fun r s => s.Steady V K P n ∧ r.1.Within V := by
  refine .bind (elaborate_keeps hV ht) fun e => ?_
  cases e.ty with
  | some ty => exact .pure fun _ hs => hs
  | none => exact .throw (Diagnostic.semantic_blames _ _)

theorem condition_keeps (ht : term.All V.leaves) (line : Nat) :
    Keeps V K P P n (condition ctx term line) := by
  refine .bind (value_keeps hV ht line) ?_
  rintro ⟨e, ty⟩ s ⟨hs, he⟩
  refine Behaves.bind (lift_behaves (Expr.valueCode_yields hV e he)) ?_ s hs
  rintro code t ⟨ht, hc⟩
  exact straight_keeps hc t ht

theorem valueOf_keeps (he : e.Within V) (ty : Ty) : Keeps V K P P n (valueOf ty e) := by
  refine .bind (lift_behaves (Expr.valueCode_yields hV _ (Expr.convertedTo_within he ty))) ?_
  rintro code t ⟨ht, hc⟩
  exact straight_keeps hc t ht

theorem effect_keeps (he : e.Within V) : Keeps V K P P n (effect e) := by
  refine .bind (lift_behaves (Expr.effectCode_yields hV e he)) ?_
  rintro code t ⟨ht, hc⟩
  exact straight_keeps hc t ht

theorem effectAll_keeps {es : List Expr} (hes : Expr.AllWithin V es) : Keeps V K P P n (effectAll es) := by
  induction es with
  | nil => exact .pure fun _ hs => hs
  | cons e rest ih => exact .bind (effect_keeps hV hes.1) fun _ => ih hes.2

theorem effects_keeps {terms : List Term} (ht : Term.AllOf V.leaves terms) :
    Keeps V K P P n (effects ctx terms) := by
  refine .bind env_keeps ?_
  rintro env s ⟨hs, rfl⟩
  refine Behaves.bind (lift_behaves (Env.elaborateAll_yields hV terms ht)) ?_ s hs
  rintro es t ⟨ht, hes⟩
  exact effectAll_keeps hV hes t ht

end Expressions

theorem jumpLabel_keeps (name : String) (line : Nat) :
    Behaves (BodyState.Steady V K P n) (jumpLabel name line) fun l s =>
      s.Steady V (l :: K) P n ∧ ∃ j, s.jumps.get? name = some j ∧ j.label = l := by
  refine .get_bind fun s hs => ?_
  cases hk : s.jumps.get? name with
  | some known =>
    refine .pure ?_
    rintro _ rfl
    have hknown (l : Label) (hl : l ∈ known.label :: K) : l.id < s.backend.targets.size := by
      obtain rfl | hl := List.mem_cons.mp hl
      · exact hs.ledger.named name known hk
      · exact hs.ledger.known l hl
    exact ⟨⟨{ hs.ledger with known := hknown }, hs.written, hs.scopes⟩, known, hk, rfl⟩
  | none =>
    rintro _ rfl
    have hissued := newLabel_owes (.user name) "jump" line s hs
    refine ⟨⟨hissued.ledger.adopt hk line ?_, hissued.written, hissued.scopes⟩, ?_⟩
    · intro other j hj he
      exact Nat.lt_irrefl _ (he ▸ hs.ledger.named other j hj)
    · exact ⟨⟨_, line, none⟩, Table.get?_insert_self _ _ _, rfl⟩

theorem defineLabel_keeps (name : String) (line : Nat) : Keeps V K P P n (defineLabel name line line) := by
  refine .bind (jumpLabel_keeps name line) fun label => .get_bind ?_
  rintro s ⟨hs, known, hk, rfl⟩
  simp only [hk]
  cases hd : known.definedAt with
  | some first =>
    exact .bind (.throw (Q := fun _ _ => False) (Diagnostic.semantic_blames _ _)) fun _ _ h => h.elim
  | none =>
    refine .bind (Q := fun _ => BodyState.Steady V (known.label :: K) (known.label :: P) n) ?_ fun _ => ?_
    · refine .modify ?_
      rintro _ rfl
      exact ⟨hs.ledger.define hk hd line, hs.written, hs.scopes⟩
    · exact Keeps.forget (List.subset_cons_self _ _) (mark_settles [] P known.label line)

section Statements

variable (hV : V.Covers ctx.registry ctx.visibility) {term : Term}

include hV

theorem declaration_keeps (ty : Ty) (name : String) {init : Option Term} (hinit : ∀ t ∈ init, t.All V.leaves)
    (line : Nat) : Keeps V K P P n (declaration ctx ty name init line) := by
  have hstore : Keeps V K P P n (do let slot ← declare name ty line; write [.store (.loc slot)]) :=
    .bind (declare_keeps name ty line) fun slot => plain_keeps (.store (.loc slot)) trivial rfl
  cases init with
  | none => exact .bind (plain_keeps (.push ty.defaultValue) (hV.default ty) rfl) fun _ => hstore
  | some term =>
    refine .bind (value_keeps hV (hinit term rfl) line) ?_
    rintro ⟨e, found⟩ s ⟨hs, he⟩
    by_cases ha : ty.accepts found = true
    · simp only [ha, if_true]
      exact Behaves.bind (valueOf_keeps hV he ty) (fun _ => hstore) s hs
    · simp only [ha]
      exact Diagnostic.semantic_blames _ _

theorem expression_keeps (ht : term.All V.leaves) (line : Nat) :
    Keeps V K P P n (expression ctx term line line) := by
  refine .bind (elaborate_keeps hV ht) ?_
  rintro e s ⟨hs, he⟩
  cases e with
  | label info name => exact defineLabel_keeps name line s hs
  | literal | load | member | unary | binary | assign | step | cast | convert | call | vector
  | rotation | list =>
    exact effect_keeps hV he s hs

theorem returning_keeps {result : Option Term} (hresult : ∀ t ∈ result, t.All V.leaves) (line : Nat) :
    Keeps V K P P n (returning ctx result line) := by
  unfold returning
  split
  · rename_i ty term hk
    refine .bind (value_keeps hV (hresult term rfl) line) ?_
    rintro ⟨e, found⟩ s ⟨hs, he⟩
    by_cases ha : ty.accepts found = true
    · simp only [ha, if_true]
      exact Behaves.bind (valueOf_keeps hV he ty) (fun _ => plain_keeps .retValue trivial rfl) s hs
    · simp only [ha]
      exact Diagnostic.semantic_blames _ _
  · exact .throw (Diagnostic.semantic_blames _ _)
  · split
    · exact .throw (Diagnostic.semantic_blames _ _)
    · exact .throw (Diagnostic.semantic_blames _ _)
  · exact plain_keeps .ret trivial rfl

omit hV in
theorem stateChange_keeps (name : String) (line : Nat) : Keeps V K P P n (stateChange ctx name line) := by
  unfold stateChange
  split
  · exact .throw (Diagnostic.semantic_blames _ _)
  · refine .get_bind fun s hs => ?_
    cases s.names.stateIndex? name with
    | none => exact .throw (Diagnostic.semantic_blames _ _)
    | some index =>
      rintro _ rfl
      exact plain_keeps (.changeState index) trivial rfl s hs

omit hV in
theorem loopJump_keeps {target : Option Label} (ht : ∀ l ∈ target, l ∈ K) (word : Keyword) (line : Nat) :
    Keeps V K P P n (loopJump target word line) := by
  cases target with
  | none => exact .throw (Diagnostic.syntactic_blames _ _)
  | some label => exact jump_keeps (ht label rfl)

/-- A condition owes the label for when it fails. -/
theorem armCondition_owes (construct : Construct) (ht : term.All V.leaves) (line : Nat) :
    Behaves (BodyState.Steady V K P n) (armCondition ctx construct term line) fun l =>
      BodyState.Steady V (l :: K) (l :: P) n := by
  refine .bind (condition_keeps hV ht line) fun _ => .bind (newLabel_owes _ _ _) fun label => ?_
  exact .bind (jumpIfFalse_keeps List.mem_cons_self) fun _ => .pure fun _ hs => hs

end Statements

/-- The meeting point of all arms is owed from the first `else` on. -/
theorem nextArm_owes {meeting : Option Label} (hm : ∀ l ∈ meeting, l ∈ K) (otherwise : Label)
    (start line : Nat) :
    Behaves (BodyState.Steady V K (otherwise :: (meeting.toList ++ P)) n)
      (nextArm meeting otherwise start line)
      fun l => BodyState.Steady V (l :: K) (l :: P) n := by
  refine .bind atLine_keeps fun _ => ?_
  cases meeting with
  | some label =>
    have hK : label :: K ⊆ K := List.cons_subset.mpr ⟨hm label rfl, List.Subset.refl _⟩
    refine .bind (Q := fun l s => l = label ∧ s.Steady V K (otherwise :: label :: P) n)
      (.pure fun _ hs => ⟨rfl, hs⟩) ?_
    rintro _ s ⟨rfl, hs⟩
    refine Behaves.bind (jump_keeps (hm _ rfl)) (fun _ => ?_) s hs
    exact .bind (Keeps.forget hK (mark_settles [] _ otherwise line)) fun _ => .pure fun _ hs => hs
  | none =>
    refine .bind (newLabel_owes _ _ _) fun label => .bind (jump_keeps List.mem_cons_self) fun _ => ?_
    exact .bind (mark_settles [label] P otherwise line) fun _ => .pure fun _ hs => hs

mutual

/-- A statement binds every label that it owes. -/
theorem statement_keeps (hV : V.Covers ctx.registry ctx.visibility) {loop : Option LoopLabels} (stmt : Stmt)
    (hs : stmt.All V.leaves) (K P : List Label) (n : Nat) (hl : ∀ ls ∈ loop, ls.again ∈ K ∧ ls.stop ∈ K) :
    Keeps V K P P n (statement ctx loop stmt) := by
  cases stmt with
  | empty => exact .pure fun _ hs => hs
  | block body => exact inScope_keeps (statements_keeps hV body hs K P (n + 1) hl)
  | declare ty name init line => exact .bind atLine_keeps fun _ => declaration_keeps hV ty name hs line
  | expr term line => exact .bind atLine_keeps fun _ => expression_keeps hV hs line
  | ret result line => exact .bind atLine_keeps fun _ => returning_keeps hV hs line
  | changeState name line => exact .bind atLine_keeps fun _ => stateChange_keeps name line
  | jump name line =>
    refine .bind atLine_keeps fun _ => .bind (jumpLabel_keeps name line) fun label => ?_
    rintro s ⟨hs, -⟩
    exact Keeps.forget (List.subset_cons_self label K) (jump_keeps List.mem_cons_self) s hs
  | breakLoop line =>
    refine .bind atLine_keeps fun _ => loopJump_keeps (fun l h => ?_) .breakWord line
    obtain ⟨ls, hls, rfl⟩ := Option.map_eq_some_iff.mp h
    exact (hl ls hls).2
  | continueLoop line =>
    refine .bind atLine_keeps fun _ => loopJump_keeps (fun l h => ?_) .continueWord line
    obtain ⟨ls, hls, rfl⟩ := Option.map_eq_some_iff.mp h
    exact (hl ls hls).1
  | branch term body rest line =>
    obtain ⟨hc, hb, hr⟩ := hs
    refine .bind atLine_keeps fun _ => .bind (armCondition_owes hV .ifArm hc line) fun otherwise => ?_
    have hl' (ls : LoopLabels) (h : ls ∈ loop) : ls.again ∈ otherwise :: K ∧ ls.stop ∈ otherwise :: K :=
      ⟨List.mem_cons_of_mem _ (hl ls h).1, List.mem_cons_of_mem _ (hl ls h).2⟩
    refine .bind (inScope_keeps (statements_keeps hV body hb _ _ _ hl')) fun _ => ?_
    exact Keeps.forget (List.subset_cons_self _ K)
      (conditionalTail_keeps hV rest hr _ P n hl' none nofun otherwise line)
  | whileLoop term body line after =>
    obtain ⟨hc, hb⟩ := hs
    refine .bind atLine_keeps fun _ => .bind (newLabel_owes _ _ _) fun again => ?_
    refine .bind (newLabel_owes _ _ _) fun stop => ?_
    -- `again` is bound at once; `stop` stays owed while the body is worked on
    refine .bind (mark_settles [stop] P again line) fun _ => ?_
    refine .bind (condition_keeps hV hc line) fun _ => ?_
    refine .bind (jumpIfFalse_keeps (by simp)) fun _ => ?_
    refine .bind (inScope_keeps (statements_keeps hV body hb _ _ _ ?_)) fun _ => ?_
    · rintro _ ⟨⟩
      simp
    refine .bind atLine_keeps fun _ => .bind (jump_keeps (by simp)) fun _ => ?_
    exact Keeps.forget (fun l h => by simp [h]) (mark_settles [] P stop after)
  | forLoop init test step body line after =>
    obtain ⟨hi, hc, hst, hb⟩ := hs
    refine .bind atLine_keeps fun _ => .bind (effects_keeps hV hi) fun _ => ?_
    refine .bind (newLabel_owes _ _ _) fun top => .bind (newLabel_owes _ _ _) fun again => ?_
    refine .bind (newLabel_owes _ _ _) fun stop => ?_
    refine .bind (mark_settles [stop, again] P top line) fun _ => ?_
    have hrest : Keeps V (stop :: again :: top :: K) ([stop, again] ++ P) P n (do
        inScope (statements ctx (some ⟨again, stop⟩) body)
        atLine after
        mark again after
        effects ctx step
        write [.jump top]
        mark stop after) := by
      refine .bind (inScope_keeps (statements_keeps hV body hb _ _ _ ?_)) fun _ => ?_
      · rintro _ ⟨⟩
        simp
      refine .bind atLine_keeps fun _ => .bind (mark_settles [stop] P again after) fun _ => ?_
      refine .bind (effects_keeps hV hst) fun _ => .bind (jump_keeps (by simp)) fun _ => ?_
      exact mark_settles [] P stop after
    have hK : K ⊆ stop :: again :: top :: K := fun l h => by simp [h]
    refine Keeps.forget hK ?_
    cases test with
    | none => exact hrest
    | some term =>
      refine .bind (condition_keeps hV (hc term rfl) line) fun _ => ?_
      exact .bind (jumpIfFalse_keeps (by simp)) fun _ => hrest
  | doLoop body term line test =>
    obtain ⟨hb, hc⟩ := hs
    refine .bind atLine_keeps fun _ => ?_
    refine .bind (newLabel_owes _ _ _) fun top => .bind (newLabel_owes _ _ _) fun again => ?_
    refine .bind (newLabel_owes _ _ _) fun stop => ?_
    refine .bind (mark_settles [stop, again] P top line) fun _ => ?_
    refine .bind (inScope_keeps (statements_keeps hV body hb _ _ _ ?_)) fun _ => ?_
    · rintro _ ⟨⟩
      simp
    refine .bind atLine_keeps fun _ => .bind (mark_settles [stop] P again test) fun _ => ?_
    refine .bind (condition_keeps hV hc test) fun _ => .bind (write_keeps ?_) fun _ => ?_
    · rintro i hi
      obtain rfl | hi := List.mem_cons.mp hi
      · exact ⟨trivial, fun l h => by simp [← Option.some.inj h]⟩
      · obtain rfl := List.mem_singleton.mp hi
        exact ⟨trivial, fun l h => by simp [← Option.some.inj h]⟩
    exact Keeps.forget (fun l h => by simp [h]) (mark_settles [] P stop test)
  | broken problem => exact .throw hs
termination_by structural stmt

theorem statements_keeps (hV : V.Covers ctx.registry ctx.visibility) {loop : Option LoopLabels}
    (body : List Stmt) (hs : Stmt.AllOf V.leaves body) (K P : List Label) (n : Nat)
    (hl : ∀ ls ∈ loop, ls.again ∈ K ∧ ls.stop ∈ K) : Keeps V K P P n (statements ctx loop body) := by
  cases body with
  | nil => exact .pure fun _ hs => hs
  | cons s rest =>
    exact .bind (statement_keeps hV s hs.1 K P n hl) fun _ => statements_keeps hV rest hs.2 K P n hl
termination_by structural body

theorem conditionalTail_keeps (hV : V.Covers ctx.registry ctx.visibility) {loop : Option LoopLabels}
    (tail : Tail) (hs : tail.All V.leaves) (K P : List Label) (n : Nat)
    (hl : ∀ ls ∈ loop, ls.again ∈ K ∧ ls.stop ∈ K) (meeting : Option Label) (hm : ∀ l ∈ meeting, l ∈ K)
    (otherwise : Label) (start : Nat) :
    Keeps V K (otherwise :: (meeting.toList ++ P)) P n
      (conditionalTail ctx loop meeting otherwise start tail) := by
  cases tail with
  | done after =>
    refine .bind atLine_keeps fun _ => .bind (mark_settles [] _ otherwise after) fun _ => ?_
    cases meeting with
    | none => exact .pure fun _ hs => hs
    | some label => exact mark_settles [] P label after
  | elseIf term body rest line =>
    obtain ⟨hc, hb, hr⟩ := hs
    refine .bind (nextArm_owes hm otherwise start line) fun label => ?_
    refine .bind (armCondition_owes hV .elseIfArm hc line) fun next => ?_
    have hl' (ls : LoopLabels) (h : ls ∈ loop) :
        ls.again ∈ next :: label :: K ∧ ls.stop ∈ next :: label :: K := by
      simp [hl ls h]
    refine .bind (inScope_keeps (statements_keeps hV body hb _ _ _ hl')) fun _ => ?_
    refine Keeps.forget (fun l h => by simp [h])
      (conditionalTail_keeps hV rest hr _ P n hl' (some label) ?_ next line)
    rintro _ ⟨⟩
    simp
  | elseArm body line after =>
    refine .bind (nextArm_owes hm otherwise start line) fun label => ?_
    refine .bind (inScope_keeps (statements_keeps hV body hs _ _ _ fun ls h => ?_)) fun _ => ?_
    · simp [hl ls h]
    refine .bind atLine_keeps fun _ => ?_
    exact Keeps.forget (List.subset_cons_self label K) (mark_settles [] P label after)
termination_by structural tail

end

theorem declareParams_keeps (line : Nat) (params : List Param) :
    Keeps V K P P n (declareParams line params) := by
  induction params with
  | nil => exact .pure fun _ hs => hs
  | cons p rest ih => exact .bind (declare_keeps p.name p.ty line) fun _ => ih

/-- A book without labels to be bound passes its check. -/
theorem expectAllMarked_ok {book : LabelBook} (hb : book.records.Sorted) (h : ∀ l, ¬ book.Unmarked l)
    (line : Nat) : book.expectAllMarked line = .ok () := by
  have hnone : book.records.entries.find? (fun e => e.2.markedAt.isNone) = none := by
    rw [List.find?_eq_none]
    rintro ⟨l, r⟩ he hr
    exact h l ⟨r, hb.get?_of_mem he, by simpa using hr⟩
  simp [LabelBook.expectAllMarked, hnone]

/-- Where nothing is owed and every name has its definition, the body is finished. -/
theorem finished_of_steady {s : BodyState Assembly} (hs : s.Steady V K [] n)
    (hj : ∀ e ∈ s.jumps.entries, e.2.definedAt ≠ none) : s.Finished V := by
  have hsettled := hs.ledger.settled hj
  constructor
  · intro i hi
    obtain ⟨hw, hl⟩ := hs.written i hi
    refine ⟨hw, fun l htl => ?_⟩
    obtain ⟨r, hr⟩ := (hs.ledger.issued l).mp (hl l htl)
    have hm : r.markedAt ≠ none := fun hm => hsettled l ⟨r, hr, hm⟩
    exact hs.ledger.bound l (by simpa [LabelBook.isMarked, hr, Option.isSome_iff_ne_none] using hm)
  · exact fun l r hr hm => hsettled l ⟨r, hr, hm⟩

/-- The end of a body whose names all have their definition. -/
theorem close_finishes (hc : StraightCode V code) (stop : Nat) :
    Behaves (fun s => s.Steady V [] [] 0 ∧ ∀ e ∈ s.jumps.entries, e.2.definedAt ≠ none)
      (close stop code) fun _ => BodyState.Finished V := by
  rintro s ⟨hs, hj⟩
  have hline : BodyState.Steady V [] [] 0 { s with backend := Backend.atLine s.backend stop } :=
    atLine_keeps s hs
  have hlast := straight_keeps hc _ hline
  have hfinished := finished_of_steady hlast hj
  have hmarked : s.book.expectAllMarked stop = .ok () :=
    expectAllMarked_ok hlast.ledger.sorted (hlast.ledger.settled hj) stop
  have hlift : Behaves (BodyState.Finished V) (lift (s.book.expectAllMarked stop)) fun _ =>
      BodyState.Finished V := by
    rw [hmarked]
    exact .pure fun _ h => h
  exact hlift _ ⟨hfinished.bound, hfinished.marked⟩

/-- At the end every label that was issued is bound. -/
theorem finish_finishes (hV : V.Covers ctx.registry ctx.visibility) (stop : Nat) :
    Behaves (BodyState.Steady V [] [] 0) (finish ctx stop) fun _ => BodyState.Finished V := by
  refine .get_bind fun s hs => ?_
  cases hj : s.jumps.entries.find? fun e => e.2.definedAt.isNone with
  | some found =>
    exact .bind (.throw (Q := fun _ _ => False) (Diagnostic.semantic_blames _ _)) fun _ _ h => h.elim
  | none =>
    have hdefined (e : String × JumpLabel) (he : e ∈ s.jumps.entries) : e.2.definedAt ≠ none := by
      simpa using List.find?_eq_none.mp hj e he
    rintro _ rfl
    cases hk : ctx.kind.returns with
    | some ty =>
      have hcode : StraightCode V [.push ty.defaultValue, .retValue] :=
        .cons (hV.default ty) rfl (.one trivial rfl)
      exact close_finishes hcode stop s ⟨hs, hdefined⟩
    | none =>
      have hcode : StraightCode V [.ret] := .one trivial rfl
      exact close_finishes hcode stop s ⟨hs, hdefined⟩

/-- A body is finished, unless there is something wrong with the script. -/
theorem compileTree_finishes (hV : V.Covers ctx.registry ctx.visibility) {params : List Param}
    {opening stop : Nat} {tokens : List Token} (ht : V.leaves.Admits tokens) (names : Names) :
    Behaves (start names Assembly.empty = ·) (compileTree ctx params opening stop tokens) fun _ =>
      BodyState.Finished V := by
  have hopen : Behaves (start names Assembly.empty = ·) (changeNames fun n => n.beginBody.openScope) fun _ =>
      BodyState.Steady V [] [] 0 := by
    rintro _ rfl
    exact ⟨Ledger.start, by simp [BodyState.code, start, Assembly.empty], rfl⟩
  refine .bind hopen fun _ => .bind (declareParams_keeps opening params) fun _ => ?_
  have hloop : ∀ ls ∈ (none : Option LoopLabels), ls.again ∈ ([] : List Label) ∧
      ls.stop ∈ ([] : List Label) := by simp
  refine .bind (statements_keeps hV _ (Stmt.ofTokens_all ht) [] [] 0 hloop) fun _ => ?_
  exact .bind (finish_finishes hV stop) fun _ => .get_bind fun s hs => .pure fun t ht => ht ▸ hs

end Body

theorem Instr.retarget_within {f : Label → Except Label Nat} {i : Instr Label} (h : i.Within V)
    (hf : ∀ l ∈ i.target?, ∃ p, f l = .ok p) : ∃ j, i.retarget f = .ok j ∧ j.Within V := by
  cases i with
  | jump l =>
    obtain ⟨p, hp⟩ := hf l rfl
    exact ⟨.jump p, by simp [retarget, hp, Except.map], trivial⟩
  | jumpIfFalse l =>
    obtain ⟨p, hp⟩ := hf l rfl
    exact ⟨.jumpIfFalse p, by simp [retarget, hp, Except.map], trivial⟩
  | push | load | store | getMember | storeMember | pop | dup | unary | binary | cast | convert | makeVector
  | makeRotation | makeList | call | ret | retValue | changeState => exact ⟨_, rfl, h⟩

/-- Code whose branches all lead somewhere becomes a chunk. -/
theorem Assembly.finish_within {a : Assembly} (locals : List Param)
    (h : ∀ i ∈ a.drafts.toList.map Draft.instr, i.Within V ∧ ∀ l ∈ i.target?, ∃ p,
      a.targets[l.id]? = some (some p)) :
    ∃ chunk, a.finish locals = .ok chunk ∧ ∀ e ∈ chunk.entries.toList, e.instr.Within V := by
  have hentry (d : Draft) (hd : d ∈ a.drafts.toList) : ∃ e, a.finishEntry d = .ok e ∧ e.instr.Within V := by
    obtain ⟨hw, hl⟩ := h d.instr (List.mem_map_of_mem hd)
    obtain ⟨j, hj, hjw⟩ := Instr.retarget_within (f := a.target) hw fun l htl => by
      obtain ⟨p, hp⟩ := hl l htl
      exact ⟨p, by simp [target, hp]⟩
    exact ⟨⟨j, d.line⟩, by simp [finishEntry, hj, Except.map], hjw⟩
  have hall : ∀ drafts : List Draft, (∀ d ∈ drafts, d ∈ a.drafts.toList) →
      ∃ entries, drafts.mapM a.finishEntry = .ok entries ∧ ∀ e ∈ entries, e.instr.Within V := by
    intro drafts
    induction drafts with
    | nil => exact fun _ => ⟨[], rfl, by simp⟩
    | cons d rest ih =>
      intro hsub
      obtain ⟨e, he, hew⟩ := hentry d (hsub d List.mem_cons_self)
      obtain ⟨es, hes, hesw⟩ := ih fun x hx => hsub x (List.mem_cons_of_mem _ hx)
      refine ⟨e :: es, by simp [he, hes, bind, Except.bind, pure, Except.pure], ?_⟩
      intro x hx
      obtain rfl | hx := List.mem_cons.mp hx
      · exact hew
      · exact hesw x hx
  obtain ⟨entries, hes, hw⟩ := hall a.drafts.toList fun _ hd => hd
  exact ⟨⟨entries.toArray, locals⟩, by simp [finish, hes, bind, Except.bind, pure, Except.pure],
    by simpa using hw⟩

end WorldScript
