import WorldScript.Proofs.Body.Typing
import WorldScript.Proofs.Label.Book
import WorldScript.Proofs.Stmt.Layout
import WorldScript.Proofs.Table

/-! # Bodies are laid out for their actions

Code is written once and never changed, and a label that is bound stays bound where it is.  So what is
known of a label at the end of a body is known of every branch that named it before.
-/

namespace WorldScript

namespace BodyState

def code (s : BodyState Assembly) : List (Instr Label) := s.backend.drafts.toList.map Draft.instr

def position (s : BodyState Assembly) : Nat := s.code.length

def Binds (s : BodyState Assembly) (l : Label) (p : Nat) : Prop := s.backend.targets[l.id]? = some (some p)

/-- The book of labels tells which labels are bound, and the functions are those of the world. -/
structure Ready (w : World) (s : BodyState Assembly) : Prop where
  bound : ∀ l p, s.Binds l p → s.book.isMarked l = true
  issued : ∀ l r, s.book.records.get? l = some r → l.id < s.backend.targets.size
  functions : s.names.functions = w.program.functions.map ScriptFunction.signature

structure Leads (w : World) (s t : BodyState Assembly) : Prop where
  ready : t.Ready w
  code : s.code <+: t.code
  binds : ∀ l p, s.Binds l p → t.Binds l p

variable {w : World} {s t u : BodyState Assembly}

theorem Leads.refl (hs : s.Ready w) : s.Leads w s := ⟨hs, List.prefix_rfl, fun _ _ h => h⟩

theorem Leads.trans (h : s.Leads w t) (h' : t.Leads w u) : s.Leads w u :=
  ⟨h'.ready, h.code.trans h'.code, fun l p hl => h'.binds l p (h.binds l p hl)⟩

end BodyState

/-- A chunk is the finished form of code that is written so far; `resolve` says where its labels are. -/
structure Chunk.Completes (k : Chunk) (resolve : Label → Except Label Nat) (s : BodyState Assembly) :
    Prop where
  holds : k.Holds resolve 0 s.code
  binds : ∀ l p, s.Binds l p → resolve l = .ok p

namespace Chunk.Completes

variable {k : Chunk} {resolve : Label → Except Label Nat} {w : World} {s t : BodyState Assembly}

theorem before (h : k.Completes resolve t) (hl : s.Leads w t) : k.Completes resolve s := by
  obtain ⟨more, hmore⟩ := hl.code
  constructor
  · have hh := h.holds
    rw [← hmore] at hh
    exact hh.left
  · intro l p hb
    exact h.binds l p (hl.binds l p hb)

/-- What was written between two states. -/
theorem written {code : List (Instr Label)} (h : k.Completes resolve t) (hc : t.code = s.code ++ code) :
    k.Holds resolve s.position code := by
  have hh := h.holds
  rw [hc] at hh
  have hr := hh.right
  rwa [Nat.zero_add] at hr

end Chunk.Completes

structure BodyState.Writes (w : World) (code : List (Instr Label)) (s t : BodyState Assembly) : Prop where
  leads : s.Leads w t
  code : t.code = s.code ++ code
  names : t.names = s.names

namespace BodyState.Writes

variable {w : World} {c₁ c₂ code : List (Instr Label)} {s t u : BodyState Assembly}

theorem trans (h : Writes w c₁ s t) (h' : Writes w c₂ t u) : Writes w (c₁ ++ c₂) s u :=
  ⟨h.leads.trans h'.leads, by rw [h'.code, h.code, List.append_assoc], h'.names.trans h.names⟩

theorem position (h : Writes w code s t) : t.position = s.position + code.length := by
  simp [BodyState.position, h.code]

end BodyState.Writes

namespace Body

open BodyM

variable {w : World} {ctx : BodyContext} {s t : BodyState Assembly} {a : Unit}

theorem atLine_writes {line : Nat} (hs : s.Ready w) (h : atLine line s = .ok a t) : s.Writes w [] t := by
  cases h
  have hready : BodyState.Ready w { s with backend := Backend.atLine s.backend line } :=
    ⟨hs.bound, hs.issued, hs.functions⟩
  exact ⟨⟨hready, List.prefix_rfl, fun _ _ h => h⟩, (List.append_nil _).symm, rfl⟩

theorem writeAll_drafts (b : Assembly) (code : List (Instr Label)) :
    (Backend.writeAll b code).drafts.toList.map Draft.instr = b.drafts.toList.map Draft.instr ++ code ∧
      (Backend.writeAll b code).targets = b.targets := by
  induction code generalizing b with
  | nil => simp [Backend.writeAll]
  | cons i rest ih =>
    obtain ⟨hd, ht⟩ := ih (b.write i)
    exact ⟨hd.trans (by simp [Assembly.write]), ht⟩

theorem write_writes {code : List (Instr Label)} (hs : s.Ready w) (h : write code s = .ok a t) :
    s.Writes w code t := by
  cases h
  obtain ⟨hd, ht⟩ := writeAll_drafts s.backend code
  have hready : BodyState.Ready w { s with backend := Backend.writeAll s.backend code } := by
    constructor
    · intro l p hb
      unfold BodyState.Binds at hb
      rw [ht] at hb
      exact hs.bound l p hb
    · intro l r hr
      rw [ht]
      exact hs.issued l r hr
    · exact hs.functions
  refine ⟨⟨hready, ⟨code, hd.symm⟩, ?_⟩, hd, rfl⟩
  intro l p hb
  unfold BodyState.Binds at hb ⊢
  rw [ht]
  exact hb

/-- A new label leaves the code and the bound labels as they are. -/
theorem newLabel_writes {purpose : LabelPurpose} {construct : String} {line : Nat} {label : Label}
    (hs : s.Ready w) (h : newLabel purpose construct line s = .ok label t) : s.Writes w [] t := by
  cases h
  have hkeep : ∀ (l : Label) (p : Nat), (s.backend.targets.push none)[l.id]? = some (some p) ↔
      s.Binds l p := by
    intro l p
    unfold BodyState.Binds
    rw [Array.getElem?_push]
    by_cases hl : l.id = s.backend.targets.size
    · simp [hl]
    · simp [hl]
  refine ⟨⟨⟨?_, ?_, hs.functions⟩, List.prefix_rfl, fun l p hb => (hkeep l p).mpr hb⟩,
    (List.append_nil _).symm, rfl⟩
  · intro l p hb
    have hold : s.Binds l p := (hkeep l p).mp hb
    have hne : l ≠ ⟨s.backend.targets.size⟩ := by
      intro he
      rw [he] at hold
      simp [BodyState.Binds] at hold
    have hm := hs.bound l p hold
    unfold LabelBook.isMarked at hm ⊢
    simp only [LabelBook.record]
    rwa [Table.get?_insert_of_ne _ _ hne]
  · intro l r hr
    change l.id < (s.backend.targets.push none).size
    rw [Array.size_push]
    by_cases he : l = ⟨s.backend.targets.size⟩
    · rw [he]
      exact Nat.lt_succ_self _
    · change (s.book.records.insert ⟨s.backend.targets.size⟩ _).get? l = some r at hr
      rw [Table.get?_insert_of_ne _ _ he] at hr
      have := hs.issued l r hr
      omega

/-- A label is bound where the next instruction will stand. -/
theorem mark_writes {label : Label} {line : Nat} (hs : s.Ready w) (h : mark label line s = .ok a t) :
    s.Writes w [] t ∧ t.Binds label s.position := by
  obtain ⟨_, _, hget, h⟩ := run_bind_ok h
  cases hget
  obtain ⟨book, _, hbook, h⟩ := run_bind_ok h
  obtain ⟨hmark, rfl⟩ := lift_ok hbook
  cases h
  obtain ⟨r, hr, hm, rfl⟩ := LabelBook.mark_ok hmark
  have hlt : label.id < s.backend.targets.size := hs.issued label r hr
  have hget : ∀ l : Label, (s.backend.targets.setIfInBounds label.id (some s.backend.drafts.size))[l.id]? =
      if l = label then some (some s.backend.drafts.size) else s.backend.targets[l.id]? := by
    intro l
    rw [Array.getElem?_setIfInBounds]
    by_cases hl : l = label
    · simp [hl, hlt]
    · have hid : label.id ≠ l.id := fun he => hl (congrArg Label.mk he.symm)
      simp [hl, hid]
  -- the label was not bound before, so that no other binding is lost
  have hkeep : ∀ l p, s.Binds l p →
      (s.backend.targets.setIfInBounds label.id (some s.backend.drafts.size))[l.id]? = some (some p) := by
    intro l p hb
    have hne : l ≠ label := by
      rintro rfl
      have hmarked := hs.bound l p hb
      simp [LabelBook.isMarked, hr, hm] at hmarked
    rw [hget, if_neg hne]
    exact hb
  refine ⟨⟨⟨⟨?_, ?_, hs.functions⟩, List.prefix_rfl, hkeep⟩, (List.append_nil _).symm, rfl⟩, ?_⟩
  · intro l p hb
    change (s.backend.targets.setIfInBounds label.id (some s.backend.drafts.size))[l.id]? =
      some (some p) at hb
    rw [hget] at hb
    unfold LabelBook.isMarked
    by_cases hl : l = label
    · rw [hl, Table.get?_insert_self]
      rfl
    · rw [if_neg hl] at hb
      rw [Table.get?_insert_of_ne _ _ hl]
      exact hs.bound l p hb
  · intro l r' hr'
    change l.id < (s.backend.targets.setIfInBounds label.id (some s.backend.drafts.size)).size
    rw [Array.size_setIfInBounds]
    by_cases hl : l = label
    · rw [hl]
      exact hlt
    · change (s.book.records.insert label _).get? l = some r' at hr'
      rw [Table.get?_insert_of_ne _ _ hl] at hr'
      exact hs.issued l r' hr'
  · have hpos : s.position = s.backend.drafts.size := by simp [BodyState.position, BodyState.code]
    change (s.backend.targets.setIfInBounds label.id (some s.backend.drafts.size))[label.id]? =
      some (some s.position)
    rw [hget, if_pos rfl, hpos]

theorem changeNames_leads {f : Names → Names} (hf : ∀ n, (f n).functions = n.functions) (hs : s.Ready w)
    (h : changeNames f s = .ok a t) : s.Leads w t ∧ t.code = s.code ∧ t.names = f s.names := by
  cases h
  exact ⟨⟨⟨hs.bound, hs.issued, (hf _).trans hs.functions⟩, List.prefix_rfl, fun _ _ h => h⟩, rfl, rfl⟩

theorem declare_leads {name : String} {ty : Ty} {line slot : Nat} (hs : s.Ready w)
    (h : declare name ty line s = .ok slot t) :
    s.Leads w t ∧ t.code = s.code ∧ s.names.declareLocal name ty line = .ok (slot, t.names) := by
  obtain ⟨_, _, hget, h⟩ := run_bind_ok h
  cases hget
  obtain ⟨⟨found, names⟩, _, hl, h⟩ := run_bind_ok h
  obtain ⟨hd, rfl⟩ := lift_ok hl
  cases h
  have hf : names.functions = s.names.functions := (Names.declareLocal_ok hd).1.functions
  exact ⟨⟨⟨hs.bound, hs.issued, hf.trans hs.functions⟩, List.prefix_rfl, fun _ _ h => h⟩, rfl, hd⟩

structure Computes (w : World) (e : Expr) (s t : BodyState Assembly) : Prop where
  writes : ∃ code, s.Writes w code t
  valueAt : ∀ (k : Chunk) (resolve : Label → Except Label Nat), k.Completes resolve t →
    k.ValueAt w e s.position t.position

structure Performs (w : World) (es : List Expr) (s t : BodyState Assembly) : Prop where
  writes : ∃ code, s.Writes w code t
  effectAt : ∀ (k : Chunk) (resolve : Label → Except Label Nat), k.Completes resolve t →
    k.EffectAt w es s.position t.position

section Expressions

variable (hn : Numbered ctx.registry.functions) (hreg : w.registry = ctx.registry)

include hreg in
theorem serves (hs : s.Ready w) : w.Serves (s.names.layout ctx.registry.functions) :=
  ⟨congrArg Registry.functions hreg.symm, hs.functions⟩

include hreg in
theorem liftWrite_computes {e : Expr} {ty : Ty} (hs : s.Ready w)
    (he : e.WellTyped (s.names.layout ctx.registry.functions)) (ht : e.ty = some ty)
    (h : (do let code ← lift e.valueCode; write code : BodyM Assembly Unit) s = .ok a t) :
    Computes w e s t := by
  obtain ⟨code, _, hc, h⟩ := run_bind_ok h
  obtain ⟨hcode, rfl⟩ := lift_ok hc
  have hwrites : s.Writes w code t := write_writes hs h
  refine ⟨⟨code, hwrites⟩, ?_⟩
  intro k resolve hk fuel stack cs F
  obtain ⟨found, hfound, himp⟩ : Coded w fuel cs.length e.valueCode (e.eval w fuel cs.length) fun v => [v] :=
    he.valueCode_implements (serves hreg hs) ty ht
  obtain rfl : code = found := Except.ok.inj (hcode.symm.trans hfound)
  rw [hwrites.position]
  exact himp k resolve s.position stack cs F rfl (hk.written hwrites.code)

include hn hreg in
theorem condition_computes {term : Term} {line : Nat} (hs : s.Ready w)
    (h : condition ctx term line s = .ok a t) : ∃ e, s.names.expr? ctx term = some e ∧ Computes w e s t := by
  obtain ⟨⟨e, ty⟩, _, hv, h⟩ := run_bind_ok h
  obtain ⟨he, ht, rfl⟩ := value_ok hv
  refine ⟨e, by simp [Names.expr?, he, Except.toOption], ?_⟩
  exact liftWrite_computes hreg hs (Env.elaborate_wellTyped hn he) ht h

include hreg in
theorem effect_performs {e : Expr} (hs : s.Ready w) (he : e.WellTyped (s.names.layout ctx.registry.functions))
    (h : effect e s = .ok a t) : Performs w [e] s t := by
  obtain ⟨code, _, hc, h⟩ := run_bind_ok h
  obtain ⟨hcode, rfl⟩ := lift_ok hc
  have hl : ∀ info name, e ≠ .label info name := by
    rintro info name rfl
    cases hcode
  have hwrites : s.Writes w code t := write_writes hs h
  refine ⟨⟨code, hwrites⟩, ?_⟩
  intro k resolve hk fuel stack cs F
  obtain ⟨found, hfound, himp⟩ :
    Coded w fuel cs.length e.effectCode (e.effect w fuel cs.length) fun _ => [] :=
    he.effectCode_implements_effect (serves hreg hs) hl
  obtain rfl : code = found := Except.ok.inj (hcode.symm.trans hfound)
  rw [hwrites.position]
  refine (himp k resolve s.position stack cs F rfl (hk.written hwrites.code)).bind fun _ G _ => ?_
  exact .pure (.refl _)

include hreg in
theorem effectAll_performs {es : List Expr} (hs : s.Ready w)
    (he : ∀ e ∈ es, e.WellTyped (s.names.layout ctx.registry.functions)) (h : effectAll es s = .ok a t) :
    Performs w es s t := by
  induction es generalizing s with
  | nil =>
    obtain ⟨-, rfl⟩ := run_pure_ok h
    refine ⟨⟨[], .refl hs, (List.append_nil _).symm, rfl⟩, ?_⟩
    intro k resolve _ fuel stack cs F
    exact .pure (.refl _)
  | cons e rest ih =>
    obtain ⟨_, u, hu, h⟩ := run_bind_ok h
    have hfirst : Performs w [e] s u := effect_performs hreg hs (he e List.mem_cons_self) hu
    obtain ⟨c₁, hw₁⟩ := hfirst.writes
    have hrest : Performs w rest u t := by
      refine ih hw₁.leads.ready ?_ h
      intro e' he'
      rw [hw₁.names]
      exact he e' (List.mem_cons_of_mem _ he')
    obtain ⟨c₂, hw₂⟩ := hrest.writes
    refine ⟨⟨c₁ ++ c₂, hw₁.trans hw₂⟩, ?_⟩
    intro k resolve hk
    have hone : k.EffectAt w [e] s.position u.position := hfirst.effectAt k resolve (hk.before hw₂.leads)
    exact hone.append (hrest.effectAt k resolve hk)

include hn hreg in
/-- All terms are elaborated before the first effect. -/
theorem effects_performs {terms : List Term} (hs : s.Ready w) (h : effects ctx terms s = .ok a t) :
    ∃ es, s.names.exprs? ctx terms = some es ∧ Performs w es s t := by
  obtain ⟨_, _, henv, h⟩ := run_bind_ok h
  cases henv
  obtain ⟨es, _, hl, h⟩ := run_bind_ok h
  obtain ⟨hes, rfl⟩ := lift_ok hl
  refine ⟨es, by simp [Names.exprs?, hes, Except.toOption], ?_⟩
  exact effectAll_performs hreg hs (Env.elaborateAll_wellTyped hn hes) h

end Expressions

/-- Work whose code tests a condition, and goes to a label if the condition fails. -/
structure Tests (w : World) (label : Label) (test : Option Expr) (s t : BodyState Assembly) : Prop where
  writes : ∃ code, s.Writes w code t
  testAt : ∀ (k : Chunk) (resolve : Label → Except Label Nat) (r : Nat), k.Completes resolve t →
    resolve label = .ok r → k.TestAt w test s.position t.position r

theorem Computes.tests {e : Expr} {label : Label} {u : BodyState Assembly} (h : Computes w e s u)
    (hw : u.Writes w [.jumpIfFalse label] t) : Tests w label (some e) s t := by
  obtain ⟨code, hcode⟩ := h.writes
  refine ⟨⟨_, hcode.trans hw⟩, ?_⟩
  intro k resolve r hk hr
  refine ⟨u.position, h.valueAt k resolve (hk.before hw.leads), ?_, hw.position⟩
  exact (hk.written hw.code).has (Instr.retarget_jumpIfFalse hr)

theorem Tests.none (hs : s.Ready w) (label : Label) : Tests w label Option.none s s :=
  ⟨⟨[], .refl hs, (List.append_nil _).symm, rfl⟩, fun _ _ _ _ _ => rfl⟩

end Body

end WorldScript
