import Mathlib.Logic.Function.Basic
import WorldScript.Proofs.Code.Typing
import WorldScript.Proofs.Outcome

/-! # Well-typed assembly

While code is assembled, the types on the stack are known at every position, and nothing is on the stack
where a label is bound.  So finished code may jump only to where the stack is empty.
-/

namespace WorldScript

variable {τ : Type} {Γ : Layout} {kind : BodyKind} {S T : List Ty} {σ ε : Type} {j : Instr τ}

namespace Layout

variable {Γ Δ : Layout}

structure Extends (Δ Γ : Layout) : Prop where
  locals : Γ.locals <+: Δ.locals
  globals : Δ.globals = Γ.globals
  functions : Δ.functions = Γ.functions
  hosts : Δ.hosts = Γ.hosts
  states : Δ.states = Γ.states

theorem Extends.varTy (h : Δ.Extends Γ) {x : Var} {ty : Ty} (hx : Γ.varTy x = some ty) :
    Δ.varTy x = some ty := by
  cases x with
  | loc slot =>
    obtain ⟨more, hm⟩ := h.locals
    have hlt := (List.getElem?_eq_some_iff.mp hx).1
    rw [Layout.varTy, ← hm, List.getElem?_append_left hlt]
    exact hx
  | glob slot =>
    rw [Layout.varTy, h.globals]
    exact hx

theorem Extends.calleeTy (h : Δ.Extends Γ) (callee : Callee) : Δ.calleeTy callee = Γ.calleeTy callee := by
  cases callee with
  | host id => rw [Layout.calleeTy, Layout.calleeTy, h.hosts]
  | script index => rw [Layout.calleeTy, Layout.calleeTy, h.functions]

end Layout

/-- Code still fits when further locals are declared. -/
theorem Instr.Fits.mono {Δ : Layout} {i : Instr τ} (hd : Δ.Extends Γ) (h : i.Fits Γ kind S T) :
    i.Fits Δ kind S T := by
  cases h with
  | load hx => exact .load (hd.varTy hx)
  | store hx => exact .store (hd.varTy hx)
  | storeMember hx ha => exact .storeMember (hd.varTy hx) ha
  | call hc => exact .call ((hd.calleeTy _).trans hc)
  | changeState hk hi => exact .changeState hk (by rw [hd.states]; exact hi)
  | push v => exact .push v
  | getMember ha => exact .getMember ha
  | pop => exact .pop
  | dup => exact .dup
  | unary hr => exact .unary hr
  | binary hr => exact .binary hr
  | cast hc => exact .cast hc
  | convert ha => exact .convert ha
  | makeVector => exact .makeVector
  | makeRotation => exact .makeRotation
  | makeList hi => exact .makeList hi
  | jump target => exact .jump target
  | jumpIfFalse target => exact .jumpIfFalse target
  | ret hk => exact .ret hk
  | retValue hk => exact .retValue hk

namespace Assembly

/-- Every instruction so far fits the types `T` on the stack before and after it, and labels are bound
where the stack is empty. -/
structure Typed (Γ : Layout) (kind : BodyKind) (a : Assembly) (T : Nat → List Ty) : Prop where
  start : T 0 = []
  fits : ∀ (i : Nat) (d : Draft), a.drafts[i]? = some d → d.instr.Fits Γ kind (T i) (T (i + 1))
  bound : ∀ l p : Nat, a.targets[l]? = some (some p) → p ≤ a.drafts.size ∧ T p = []

def Leaves (Γ : Layout) (kind : BodyKind) (a : Assembly) (S : List Ty) : Prop :=
  ∃ T, a.Typed Γ kind T ∧ T a.drafts.size = S

variable {Γ Δ : Layout} {kind : BodyKind} {a : Assembly} {S : List Ty} {U : List Ty}

theorem Leaves.empty : Assembly.empty.Leaves Γ kind [] :=
  ⟨fun _ => [], ⟨rfl, by simp [Assembly.empty], by simp [Assembly.empty]⟩, rfl⟩

theorem Leaves.mono (hd : Δ.Extends Γ) (h : a.Leaves Γ kind S) : a.Leaves Δ kind S := by
  obtain ⟨T, ht, hS⟩ := h
  exact ⟨T, ⟨ht.start, fun i d hi => (ht.fits i d hi).mono hd, ht.bound⟩, hS⟩

theorem Leaves.atLine (line : Nat) (h : a.Leaves Γ kind S) : (a.atLine line).Leaves Γ kind S := by
  obtain ⟨T, ht, hS⟩ := h
  exact ⟨T, ⟨ht.start, ht.fits, ht.bound⟩, hS⟩

theorem Leaves.newLabel (h : a.Leaves Γ kind S) : a.newLabel.2.Leaves Γ kind S := by
  obtain ⟨T, ht, hS⟩ := h
  refine ⟨T, ⟨ht.start, ht.fits, ?_⟩, hS⟩
  intro l p hl
  simp only [Assembly.newLabel, Array.getElem?_push] at hl
  split at hl
  · simp at hl
  · exact ht.bound l p hl

theorem Leaves.place (label : Label) (h : a.Leaves Γ kind []) : (a.place label).Leaves Γ kind [] := by
  obtain ⟨T, ht, hS⟩ := h
  refine ⟨T, ⟨ht.start, ht.fits, ?_⟩, hS⟩
  intro l p hl
  simp only [Assembly.place, Array.getElem?_setIfInBounds] at hl
  split at hl
  · split at hl
    · cases hl
      exact ⟨Nat.le_refl _, hS⟩
    · simp at hl
  · exact ht.bound l p hl

/-- An instruction that fits takes the types on the stack further. -/
theorem Leaves.write {i : Instr Label} (h : a.Leaves Γ kind S) (hi : i.Fits Γ kind S U) :
    (a.write i).Leaves Γ kind U := by
  obtain ⟨T, ht, rfl⟩ := h
  -- the new position gets its types, and the others keep theirs
  refine ⟨Function.update T (a.drafts.size + 1) U, ⟨?_, ?_, ?_⟩, ?_⟩
  · rw [Function.update_of_ne (by omega)]
    exact ht.start
  · intro j d hj
    simp only [Assembly.write, Array.getElem?_push] at hj
    split at hj
    · rename_i hsize
      cases hj
      rw [hsize, Function.update_self, Function.update_of_ne (by omega)]
      exact hi
    · have hlt := (Array.getElem?_eq_some_iff.mp hj).1
      rw [Function.update_of_ne (by omega), Function.update_of_ne (by omega)]
      exact ht.fits j d hj
  · intro l p hl
    obtain ⟨hle, hp⟩ := ht.bound l p hl
    refine ⟨by simp only [Assembly.write, Array.size_push]; omega, ?_⟩
    rw [Function.update_of_ne (by omega)]
    exact hp
  · simp only [Assembly.write, Array.size_push, Function.update_self]

theorem Leaves.writeAll {code : List (Instr Label)} (h : a.Leaves Γ kind S) (hc : CodeFits Γ kind code S U) :
    (Backend.writeAll a code).Leaves Γ kind U := by
  induction hc generalizing a with
  | nil => exact h
  | cons hi _ ih => exact ih (h.write hi)

end Assembly

def Instr.target? : Instr τ → Option τ
  | .jump target => some target
  | .jumpIfFalse target => some target
  | _ => none

def Instr.isReturn : Instr τ → Bool
  | .ret => true
  | .retValue => true
  | _ => false

/-- Types do not depend on what jumps name. -/
theorem Instr.Fits.retarget {f : σ → Except ε τ} {i : Instr σ} (h : i.Fits Γ kind S T)
    (hj : i.retarget f = .ok j) : j.Fits Γ kind S T := by
  cases h with
  | jump target =>
    obtain ⟨t, _, rfl⟩ := map_ok.mp hj
    exact .jump t
  | jumpIfFalse target =>
    obtain ⟨t, _, rfl⟩ := map_ok.mp hj
    exact .jumpIfFalse t
  | push v => cases hj; exact .push v
  | load hx => cases hj; exact .load hx
  | store hx => cases hj; exact .store hx
  | getMember ha => cases hj; exact .getMember ha
  | storeMember hx ha => cases hj; exact .storeMember hx ha
  | pop => cases hj; exact .pop
  | dup => cases hj; exact .dup
  | unary hr => cases hj; exact .unary hr
  | binary hr => cases hj; exact .binary hr
  | cast hc => cases hj; exact .cast hc
  | convert ha => cases hj; exact .convert ha
  | makeVector => cases hj; exact .makeVector
  | makeRotation => cases hj; exact .makeRotation
  | makeList hi => cases hj; exact .makeList hi
  | call hc => cases hj; exact .call hc
  | ret hk => cases hj; exact .ret hk
  | retValue hk => cases hj; exact .retValue hk
  | changeState hk hi => cases hj; exact .changeState hk hi

theorem Instr.target?_retarget {f : σ → Except ε τ} {i : Instr σ} {t : τ} (hj : i.retarget f = .ok j)
    (ht : j.target? = some t) : ∃ l, f l = .ok t := by
  cases i with
  | jump target | jumpIfFalse target =>
    obtain ⟨found, hf, rfl⟩ := map_ok.mp hj
    cases ht
    exact ⟨target, hf⟩
  | _ =>
    cases hj
    simp [Instr.target?] at ht

theorem Instr.isReturn_retarget {f : σ → Except ε τ} {i : Instr σ} (hj : i.retarget f = .ok j) :
    j.isReturn = i.isReturn := by
  cases i with
  | jump target | jumpIfFalse target =>
    obtain ⟨found, hf, rfl⟩ := map_ok.mp hj
    rfl
  | _ =>
    cases hj
    rfl

/-- A chunk whose instructions fit the types `T` on the stack before and after them, which jumps only to
instructions of its own where the stack is empty, and which ends with a return. -/
structure Chunk.Typed (Γ : Layout) (kind : BodyKind) (c : Chunk) (T : Nat → List Ty) : Prop where
  start : T 0 = []
  fits : ∀ (i : Nat) (e : Entry), c.entries[i]? = some e → e.instr.Fits Γ kind (T i) (T (i + 1))
  targets : ∀ (i : Nat) (e : Entry) (t : Nat), c.entries[i]? = some e → e.instr.target? = some t →
    t < c.entries.size ∧ T t = []
  last : ∃ e, c.entries.back? = some e ∧ e.instr.isReturn = true
  locals : c.locals.map Param.ty = Γ.locals

def Chunk.WellTyped (Γ : Layout) (kind : BodyKind) (c : Chunk) : Prop := ∃ T, c.Typed Γ kind T

namespace Assembly

variable {Γ : Layout} {kind : BodyKind} {a : Assembly} {S : List Ty}

theorem target_ok {l : Label} {t : Nat} (h : a.target l = .ok t) : a.targets[l.id]? = some (some t) := by
  unfold Assembly.target at h
  split at h
  · rename_i position hp
    cases h
    exact hp
  · simp at h

/-- The finished code of an assembly that ends with a return is well typed. -/
theorem Leaves.finish {i : Instr Label} {U : List Ty} {locals : List Param} {c : Chunk}
    (h : a.Leaves Γ kind S) (hi : i.Fits Γ kind S U) (hr : i.isReturn = true)
    (hl : locals.map Param.ty = Γ.locals) (hc : (a.write i).finish locals = .ok c) :
    c.WellTyped Γ kind := by
  obtain ⟨T, ht, -⟩ := h.write hi
  obtain ⟨_, before, -⟩ := h
  simp only [Assembly.finish, bind_ok, pure_ok] at hc
  obtain ⟨entries, he, rfl⟩ := hc
  obtain ⟨hlen, hget⟩ := mapM_getElem? he
  have hentry : ∀ (j : Nat) (e : Entry), entries[j]? = some e →
      ∃ d, (a.write i).drafts[j]? = some d ∧ d.instr.retarget (a.write i).target = .ok e.instr := by
    intro j e hj
    obtain ⟨d, hd, hf⟩ := hget j e hj
    obtain ⟨instr, hinstr, rfl⟩ := map_ok.mp hf
    exact ⟨d, by simpa using hd, hinstr⟩
  have hsize : entries.length = a.drafts.size + 1 := by
    rw [← hlen]
    simp [Assembly.write]
  refine ⟨T, ht.start, ?_, ?_, ?_, hl⟩
  · intro j e hj
    obtain ⟨d, hd, hinstr⟩ := hentry j e (by simpa using hj)
    exact (ht.fits j d hd).retarget hinstr
  · intro j e t hj htarget
    obtain ⟨d, hd, hinstr⟩ := hentry j e (by simpa using hj)
    obtain ⟨l, hl⟩ := Instr.target?_retarget hinstr htarget
    have hbound : a.targets[l.id]? = some (some t) := target_ok hl
    have hle := (before.bound l.id t hbound).1
    exact ⟨by simp only [List.size_toArray]; omega, (ht.bound l.id t hbound).2⟩
  · obtain ⟨e, hlast⟩ : ∃ e, entries[a.drafts.size]? = some e :=
      ⟨entries[a.drafts.size], List.getElem?_eq_getElem (by omega)⟩
    obtain ⟨d, hd, hinstr⟩ := hentry _ e hlast
    have hdi : d.instr = i := by
      simp only [Assembly.write, Array.getElem?_push_size, Option.some.injEq] at hd
      rw [← hd]
    refine ⟨e, ?_, ?_⟩
    · rw [Array.back?_eq_getElem?, List.size_toArray, hsize]
      simpa using hlast
    · rw [Instr.isReturn_retarget hinstr, hdi, hr]

end Assembly

end WorldScript
