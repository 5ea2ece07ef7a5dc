import Mathlib.Data.String.Basic
import WorldScript.Proofs.Body.Survey

/-! # Where jumps and labels stand

The table of a body knows each name that was jumped to or defined.  Where a jump was noted, the code has
a jump for the label of its name, and where a label was noted, it is bound.  This stays so to the end of
the body, where each label becomes the position of the next instruction.
-/

namespace WorldScript

variable {s t : BodyState Assembly}

/-- A table has the names of sites, with those defined that are the name of a label. -/
structure Listed (jumps : Table String JumpLabel) (sites : List Site) : Prop where
  sorted : jumps.Sorted
  distinct : (labelsOf sites).Nodup
  known : ∀ name j, jumps.get? name = some j → .jump name ∈ sites ∨ .label name ∈ sites
  defined : ∀ name, .label name ∈ sites ↔ ∃ j, jumps.get? name = some j ∧ j.definedAt ≠ none

namespace Listed

variable {jumps jumps' : Table String JumpLabel} {sites : List Site} {name : String} {j : JumpLabel}

theorem jump (h : Listed jumps sites) (hs : jumps'.Sorted)
    (hget : ∀ other, jumps'.get? other = if other = name then some j else jumps.get? other)
    (hbefore : jumps.get? name = some j ∨ jumps.get? name = none ∧ j.definedAt = none) :
    Listed jumps' (sites ++ [.jump name]) := by
  constructor
  · exact hs
  · have hnone : labelsOf [.jump name] = [] := rfl
    rw [labelsOf_append, hnone, List.append_nil]
    exact h.distinct
  · intro other k hk
    rw [hget] at hk
    by_cases he : other = name
    · simp [he]
    · rw [if_neg he] at hk
      have hold := h.known other k hk
      grind
  · intro other
    rw [hget]
    by_cases he : other = name
    · have hold := h.defined name
      grind
    · have hold := h.defined other
      grind

theorem label (h : Listed jumps sites) (hs : jumps'.Sorted)
    (hget : ∀ other, jumps'.get? other = if other = name then some j else jumps.get? other)
    (hd : j.definedAt ≠ none) (hnew : .label name ∉ sites) : Listed jumps' (sites ++ [.label name]) := by
  constructor
  · exact hs
  · rw [labelsOf_append]
    refine List.nodup_append.mpr ⟨h.distinct, List.nodup_singleton name, ?_⟩
    rintro a ha _ hb rfl
    obtain rfl := List.mem_singleton.mp hb
    exact hnew (mem_labelsOf.mp ha)
  · intro other k hk
    rw [hget] at hk
    by_cases he : other = name
    · simp [he]
    · rw [if_neg he] at hk
      have hold := h.known other k hk
      grind
  · intro other
    rw [hget]
    by_cases he : other = name
    · simp [he, hd]
    · have hold := h.defined other
      grind

theorem not_label (h : Listed jumps sites) (hd : j.definedAt = none)
    (hbefore : jumps.get? name = some j ∨ jumps.get? name = none ∧ j.definedAt = none) :
    .label name ∉ sites := by
  intro hlabel
  obtain ⟨k, hk, hdefined⟩ := (h.defined name).mp hlabel
  obtain hbefore | ⟨hbefore, -⟩ := hbefore
  · rw [hk] at hbefore
    cases hbefore
    exact hdefined hd
  · rw [hk] at hbefore
    cases hbefore

/-- All names have their definition just if every jump goes to the name of a label. -/
theorem all_defined_iff (h : Listed jumps sites)
    (hjumps : ∀ name, .jump name ∈ sites → ∃ j, jumps.get? name = some j) :
    (jumps.entries.find? fun e => e.2.definedAt.isNone) = none ↔
      ∀ name, .jump name ∈ sites → .label name ∈ sites := by
  simp only [List.find?_eq_none, Option.isNone_iff_eq_none]
  constructor
  · intro hall name hname
    obtain ⟨j, hj⟩ := hjumps name hname
    exact (h.defined name).mpr ⟨j, hj, hall (name, j) (Table.mem_of_get? hj)⟩
  · rintro hall ⟨name, j⟩ he hnone
    have hj : jumps.get? name = some j := h.sorted.get?_of_mem he
    have hlabel : .label name ∈ sites := (h.known name j hj).elim (hall name) id
    obtain ⟨k, hk, hd⟩ := (h.defined name).mp hlabel
    rw [hj] at hk
    cases hk
    exact hd hnone

end Listed

/-- Where a jump was noted stands a jump for the label of its name, and a label is bound where it was
noted. -/
structure Placed (s : BodyState Assembly) (marks : List Mark) : Prop where
  jump : ∀ name p, ⟨.jump name, p⟩ ∈ marks →
    ∃ j, s.jumps.get? name = some j ∧ s.code[p]? = some (.jump j.label)
  label : ∀ name p, ⟨.label name, p⟩ ∈ marks →
    ∃ j, s.jumps.get? name = some j ∧ s.Binds j.label p ∧ p ≤ s.position

namespace Placed

variable {s t : BodyState Assembly} {marks : List Mark} {name : String} {j : JumpLabel} {p : Nat}

/-- Code stays where it is, and names keep their labels. -/
theorem grow (h : Placed s marks) (hg : s.Grows t)
    (hkeep : ∀ name old, s.jumps.get? name = some old → ∃ j, t.jumps.get? name = some j ∧
      j.label = old.label) :
    Placed t marks := by
  obtain ⟨more, hmore⟩ := hg.code
  constructor
  · intro name p hm
    obtain ⟨old, hold, hcode⟩ := h.jump name p hm
    obtain ⟨j, hj, hl⟩ := hkeep name old hold
    have hlt : p < s.code.length := (List.getElem?_eq_some_iff.mp hcode).1
    refine ⟨j, hj, ?_⟩
    rw [hl, ← hmore, List.getElem?_append_left hlt, hcode]
  · intro name p hm
    obtain ⟨old, hold, hbinds, hp⟩ := h.label name p hm
    obtain ⟨j, hj, hl⟩ := hkeep name old hold
    refine ⟨j, hj, hl ▸ hg.binds _ p hbinds, hp.trans ?_⟩
    unfold BodyState.position
    rw [← hmore, List.length_append]
    omega

theorem known (h : Placed s marks) (name : String) (hname : .jump name ∈ marks.map Mark.site) :
    ∃ j, s.jumps.get? name = some j := by
  obtain ⟨⟨site, p⟩, hm, rfl⟩ := List.mem_map.mp hname
  obtain ⟨j, hj, -⟩ := h.jump name p hm
  exact ⟨j, hj⟩

theorem append {more : List Mark} (h : Placed s marks) (hmore : Placed s more) :
    Placed s (marks ++ more) where
  jump name p hm := (List.mem_append.mp hm).elim (h.jump name p) (hmore.jump name p)
  label name p hm := (List.mem_append.mp hm).elim (h.label name p) (hmore.label name p)

theorem addJump (h : Placed s marks) (hj : s.jumps.get? name = some j)
    (hcode : s.code[p]? = some (.jump j.label)) : Placed s (marks ++ [⟨.jump name, p⟩]) := by
  refine h.append ⟨fun other q hm => ?_, fun other q hm => ?_⟩
  · cases List.mem_singleton.mp hm
    exact ⟨j, hj, hcode⟩
  · cases List.mem_singleton.mp hm

theorem addLabel (h : Placed s marks) (hj : s.jumps.get? name = some j) (hb : s.Binds j.label p)
    (hp : p ≤ s.position) : Placed s (marks ++ [⟨.label name, p⟩]) := by
  refine h.append ⟨fun other q hm => ?_, fun other q hm => ?_⟩
  · cases List.mem_singleton.mp hm
  · cases List.mem_singleton.mp hm
    exact ⟨j, hj, hb, hp⟩

end Placed

/-- `t` is `s` where a name has the label `j`, which it had before or which is new. -/
structure BodyState.Provides (name : String) (j : JumpLabel) (s t : BodyState Assembly) : Prop where
  names : t.names = s.names
  grows : s.Grows t
  code : t.code = s.code
  sorted : s.jumps.Sorted → t.jumps.Sorted
  get : ∀ other, t.jumps.get? other = if other = name then some j else s.jumps.get? other
  before : s.jumps.get? name = some j ∨ s.jumps.get? name = none ∧ j.definedAt = none

theorem BodyState.Provides.keep {name : String} {j : JumpLabel} (h : s.Provides name j t) (other : String)
    (old : JumpLabel) (hold : s.jumps.get? other = some old) :
    ∃ k, t.jumps.get? other = some k ∧ k.label = old.label := by
  rw [h.get]
  have hbefore := h.before
  by_cases he : other = name
  · rw [he] at hold
    exact ⟨j, if_pos he, by grind⟩
  · exact ⟨old, by rw [if_neg he, hold], rfl⟩

/-- The line of the code that follows does not matter. -/
theorem BodyState.Provides.of_atLine {name : String} {j : JumpLabel} {line : Nat}
    (h : BodyState.Provides name j { s with backend := Backend.atLine s.backend line } t) :
    s.Provides name j t :=
  ⟨h.names, ⟨h.grows.tidy, h.grows.code, h.grows.binds⟩, h.code, h.sorted, h.get, h.before⟩

theorem BodyState.Tidy.atLine (h : s.Tidy) (line : Nat) :
    BodyState.Tidy { s with backend := Backend.atLine s.backend line } := ⟨h.bound, h.issued⟩

theorem BodyState.Grows.setJumps (h : s.Grows t) (jumps : Table String JumpLabel) :
    s.Grows { t with jumps } :=
  ⟨⟨h.tidy.bound, h.tidy.issued⟩, h.code, h.binds⟩

namespace Body

open BodyM

variable {s : BodyState Assembly}

theorem jumpLabel_run (hs : s.Tidy) (name : String) (line : Nat) :
    ∃ j t, jumpLabel name line s = .ok j.label t ∧ s.Provides name j t := by
  cases hk : s.jumps.get? name with
  | some known =>
    refine ⟨known, s, ?_, rfl, .refl hs, rfl, id, ?_, .inl hk⟩
    · simp only [jumpLabel, run_get_bind, hk]
      rfl
    · intro other
      split
      · rename_i he
        rw [he, hk]
      · rfl
  | none =>
    obtain ⟨w, hw⟩ := hs.ready
    let j : JumpLabel := ⟨⟨s.backend.targets.size⟩, line, none⟩
    obtain ⟨t, ht, hnew, hjumps⟩ : ∃ t, newLabel (.user name) "jump" line s = .ok j.label t ∧
      s.Writes w [] t ∧
        t.jumps = s.jumps := ⟨_, rfl, newLabel_writes hw rfl, rfl⟩
    refine ⟨j, { t with jumps := t.jumps.insert name j }, ?_, hnew.names,
      hnew.leads.grows.setJumps _, ?_, ?_, ?_,
      .inr ⟨hk, rfl⟩⟩
    · simp only [jumpLabel, run_get_bind, hk]
      rw [run_bind_of_ok ht]
      rfl
    · exact hnew.code.trans (List.append_nil _)
    · exact fun h => hjumps ▸ h.insert _ _
    · exact fun other => hjumps ▸ Table.get?_insert _ _ other _

/-- A label is bound, unless its name was defined before. -/
theorem defineLabel_run (hs : s.Tidy) (name : String) (line : Nat) :
    ∃ j t, s.Provides name j t ∧
      ((j.definedAt ≠ none ∧ ∃ d t', defineLabel name line line s = .error d t') ∨
        (j.definedAt = none ∧ defineLabel name line line s =
          mark j.label line { t with jumps := t.jumps.insert name { j with definedAt := some line } })) := by
  obtain ⟨j, t, hrun, ht⟩ := jumpLabel_run hs name line
  have hj : t.jumps.get? name = some j := by rw [ht.get, if_pos rfl]
  refine ⟨j, t, ht, ?_⟩
  unfold defineLabel
  rw [run_bind_of_ok hrun]
  simp only [run_get_bind, hj]
  cases hd : j.definedAt with
  | some first => exact .inl ⟨by simp, _, _, rfl⟩
  | none => exact .inr ⟨rfl, rfl⟩

end Body

namespace Survey

variable {u : Survey} {t : BodyState Assembly}

open BodyM

/-- The names are listed and the code is in place for all that is noted. -/
structure Sound (u : Survey) : Prop where
  tidy : u.body.Tidy
  listed : Listed u.body.jumps u.sites
  placed : Placed u.body u.marks

theorem Sound.grow (hu : u.Sound) (hg : u.body.Grows t) (hj : t.jumps = u.body.jumps) :
    Sound ⟨t, u.marks⟩ := by
  refine ⟨hg.tidy, ?_, hu.placed.grow hg fun name old hold => ⟨old, by rw [hj, hold], rfl⟩⟩
  rw [hj]
  exact hu.listed

theorem sites_append (body : BodyState Assembly) (marks : List Mark) (m : Mark) :
    sites ⟨body, marks ++ [m]⟩ = marks.map Mark.site ++ [m.site] := List.map_append

/-- A jump is written for the label of its name. -/
theorem Sound.jump (hu : u.Sound) {name : String} {j : JumpLabel} {s : BodyState Assembly}
    (hs : u.body.Provides name j s) {a : Unit} (hwrite : write [.jump j.label] s = .ok a t) :
    t.names = u.body.names ∧ Sound ⟨t, u.marks ++ [⟨.jump name, u.body.position⟩]⟩ := by
  obtain ⟨w, hw⟩ := hs.grows.tidy.ready
  have hwrites : s.Writes w [.jump j.label] t := Body.write_writes hw hwrite
  have hjumps : t.jumps = s.jumps := by
    cases hwrite
    rfl
  have hgrows : u.body.Grows t := hs.grows.trans hwrites.leads.grows
  have hj : t.jumps.get? name = some j := by rw [hjumps, hs.get, if_pos rfl]
  have hcode : t.code[u.body.position]? = some (.jump j.label) := by
    rw [hwrites.code, hs.code]
    exact List.getElem?_concat_length
  have hplaced : Placed t u.marks := hu.placed.grow hgrows (hjumps ▸ hs.keep)
  refine ⟨hwrites.names.trans hs.names, hgrows.tidy, ?_, hplaced.addJump hj hcode⟩
  rw [sites_append]
  exact hu.listed.jump (hjumps ▸ hs.sorted hu.listed.sorted) (hjumps ▸ hs.get) hs.before

/-- A label that was not defined before is bound to the next instruction. -/
theorem Sound.define (hu : u.Sound) {name : String} {j : JumpLabel} {s : BodyState Assembly}
    (hs : u.body.Provides name j s) (hd : j.definedAt = none) {line : Nat} {a : Unit}
    (hmark : mark j.label line
      { s with jumps := s.jumps.insert name { j with definedAt := some line } } = .ok a t) :
    t.names = u.body.names ∧ Sound ⟨t, u.marks ++ [⟨.label name, u.body.position⟩]⟩ := by
  let known : JumpLabel := { j with definedAt := some line }
  let s₁ : BodyState Assembly := { s with jumps := s.jumps.insert name known }
  have hgrows₁ : u.body.Grows s₁ := hs.grows.setJumps _
  have hposition : s₁.position = u.body.position := congrArg List.length hs.code
  obtain ⟨w, hw⟩ := hgrows₁.tidy.ready
  obtain ⟨hwrites, hbinds⟩ := Body.mark_writes hw hmark
  obtain ⟨hnames, hjumps⟩ := Body.mark_run hmark
  have hgrows : u.body.Grows t := hgrows₁.trans hwrites.leads.grows
  have hget : ∀ other, t.jumps.get? other = if other = name then some known else u.body.jumps.get? other := by
    intro other
    rw [hjumps, Table.get?_insert, hs.get]
    by_cases he : other = name
    · simp [he, known]
    · simp [he]
  have hj : t.jumps.get? name = some known := by rw [hget, if_pos rfl]
  have hplaced : Placed t u.marks := by
    refine hu.placed.grow hgrows ?_
    intro other old hold
    obtain ⟨k, hk, hl⟩ := hs.keep other old hold
    rw [hs.get] at hk
    rw [hget]
    by_cases he : other = name
    · rw [if_pos he] at hk
      cases hk
      exact ⟨known, if_pos he, hl⟩
    · exact ⟨old, by rw [if_neg he, hold], rfl⟩
  have hle : u.body.position ≤ t.position := by
    rw [hwrites.position]
    exact hposition.ge.trans (Nat.le_add_right _ _)
  refine ⟨hnames.trans hs.names, hgrows.tidy, ?_, hplaced.addLabel hj (hposition ▸ hbinds) hle⟩
  have hsorted : t.jumps.Sorted := hjumps ▸ (hs.sorted hu.listed.sorted).insert _ _
  rw [sites_append]
  exact hu.listed.label hsorted hget (by simp [known]) (hu.listed.not_label hd hs.before)

end Survey

theorem Chunk.ReturnsAt.lt_size {k : Chunk} {returns : Option Ty} {q : Nat} (h : k.ReturnsAt returns q) :
    q < k.entries.size := by
  have hlt {i : Instr Nat} (hi : k.Has q i) : q < k.entries.size := by
    obtain ⟨e, he, -⟩ := hi
    exact (Array.getElem?_eq_some_iff.mp he).1
  cases returns with
  | none => exact hlt h
  | some ty => exact hlt h.1

namespace Body

open BodyM

variable {s : BodyState Assembly}

theorem finish_undefined (ctx : BodyContext) (stop : Nat) {e : String × JumpLabel}
    (h : (s.jumps.entries.find? fun e => e.2.definedAt.isNone) = some e) :
    ∃ d, finish ctx stop s = .error d s := by
  refine ⟨.semantic e.2.firstUse (.undefinedLabel e.1), ?_⟩
  unfold finish
  rw [run_get_bind]
  simp only [h]
  rfl

/-- Where all names are defined, only the book of labels can be in the way. -/
theorem finish_defined (ctx : BodyContext) (stop : Nat)
    (h : (s.jumps.entries.find? fun e => e.2.definedAt.isNone) = none) :
    ∃ s', finish ctx stop s = lift (s.book.expectAllMarked stop) s' ∧ s'.jumps = s.jumps := by
  unfold finish
  rw [run_get_bind]
  simp only [h]
  cases ctx.kind.returns with
  | none => exact ⟨_, rfl, rfl⟩
  | some ty => exact ⟨_, rfl, rfl⟩

end Body

namespace Survey

/-- Before the statements nothing is noted. -/
theorem Sound.start {s : BodyState Assembly} (hs : s.Tidy) (hj : s.jumps = .empty) : Sound ⟨s, []⟩ := by
  refine ⟨hs, ?_, by simp, by simp⟩
  dsimp only
  rw [hj]
  refine ⟨Table.sorted_empty, .nil, ?_, ?_⟩
  · intro name j hname
    cases hname
  · intro name
    simp [sites, Table.get?_empty]

/-- Where all names are defined, the body is finished with a return, or there is a defect. -/
theorem Sound.finish {u : Survey} (hu : u.Sound) (ctx : BodyContext) (stop : Nat)
    (hd : (u.body.jumps.entries.find? fun e => e.2.definedAt.isNone) = none) :
    (∃ t, Body.finish ctx stop u.body = .ok () t ∧ Sound ⟨t, u.marks⟩ ∧
      ∀ (k : Chunk) (resolve : Label → Except Label Nat), k.Completes resolve t →
        u.body.position < k.entries.size) ∨
    ∃ d t, Body.finish ctx stop u.body = .error d t ∧ ¬ d.BlamesScript := by
  obtain ⟨s, hs, hj⟩ := Body.finish_defined ctx stop hd
  cases hbook : u.body.book.expectAllMarked stop with
  | error d =>
    rw [hbook] at hs
    exact .inr ⟨d, s, hs, LabelBook.expectAllMarked_error hbook⟩
  | ok a =>
    rw [hbook] at hs
    obtain ⟨w, hw⟩ := hu.tidy.ready
    obtain ⟨hleads, -, hreturns⟩ := Body.finish_returns hw hs
    exact .inl ⟨s, hs, hu.grow hleads.grows hj, fun k resolve hk => (hreturns k resolve hk).lt_size⟩

/-- The finished code has a jump to its label where a jump was noted. -/
theorem Sound.jump_target {u : Survey} (hu : u.Sound) (hres : Resolvable u.sites) {k : Chunk}
    {resolve : Label → Except Label Nat} (hk : k.Completes resolve u.body) {name : String} {p : Nat}
    (hp : ⟨.jump name, p⟩ ∈ u.marks) : ∃ q, ⟨.label name, q⟩ ∈ u.marks ∧ k.Has p (.jump q) := by
  obtain ⟨j, hj, hcode⟩ := hu.placed.jump name p hp
  have hlabel : .label name ∈ u.marks.map Mark.site := hres.defined name (List.mem_map.mpr ⟨_, hp, rfl⟩)
  obtain ⟨⟨site, q⟩, hq, rfl⟩ := List.mem_map.mp hlabel
  obtain ⟨j', hj', hbinds, -⟩ := hu.placed.label name q hq
  obtain rfl : j = j' := Option.some.inj (hj.symm.trans hj')
  obtain ⟨e, he, hretarget⟩ := hk.holds p _ hcode
  have htarget := Instr.retarget_jump (hk.binds _ q hbinds)
  rw [Nat.zero_add] at he
  exact ⟨q, hq, e, he, Except.ok.inj (hretarget.symm.trans htarget)⟩

end Survey

end WorldScript
