import WorldScript.Proofs.Body.Sites
import WorldScript.Proofs.Script.Words

/-! # Work on bodies that differ in their jumps

Which diagnostics the parts of a body lead to depends on the names in scope alone.  So where one body is
accepted, another one that has the same parts in the same scopes is accepted up to the same point, unless a
label of its own is in the way.
-/

namespace WorldScript

namespace BodyState

/-- Only labels that the book has as bound have a position, and the book has only labels that were issued. -/
structure Tidy (s : BodyState Assembly) : Prop where
  bound : ∀ l p, s.Binds l p → s.book.isMarked l = true
  issued : ∀ l r, s.book.records.get? l = some r → l.id < s.backend.targets.size

structure Grows (s t : BodyState Assembly) : Prop where
  tidy : t.Tidy
  code : s.code <+: t.code
  binds : ∀ l p, s.Binds l p → t.Binds l p

variable {s t u : BodyState Assembly}

theorem Grows.refl (hs : s.Tidy) : s.Grows s := ⟨hs, List.prefix_rfl, fun _ _ h => h⟩

theorem Grows.trans (h : s.Grows t) (h' : t.Grows u) : s.Grows u :=
  ⟨h'.tidy, h.code.trans h'.code, fun l p hl => h'.binds l p (h.binds l p hl)⟩

theorem Leads.grows {w : World} (h : s.Leads w t) : s.Grows t :=
  ⟨⟨h.ready.bound, h.ready.issued⟩, h.code, h.binds⟩

/-- Some world has functions with the signatures that the names have, so that what is known of single
steps in a world can be used. -/
theorem Tidy.ready (hs : s.Tidy) : ∃ w, s.Ready w := by
  let functions : List (ScriptFunction Chunk) := s.names.functions.map fun signature => ⟨signature, ⟨#[], []⟩⟩
  refine ⟨⟨⟨[], functions, []⟩, .ofBuilder (.empty true)⟩, hs.bound, hs.issued, ?_⟩
  simp [functions, Function.comp_def]

end BodyState

namespace Body

open BodyM

variable {ctx : BodyContext} {α β γ δ : Type} {R : α → β → Prop} {S : γ → δ → Prop} {label : Label}
  {line : Nat} {s t : BodyState Assembly} {known known' : Option Label}

abbrev Unrelated (_ : α) (_ : β) : Prop := True

/-- Where `y` comes to an end, `x` does so with the same names, or there is a defect of the compiler.  The
jumps of the script are no part of it. -/
def Echoes (R : α → β → Prop) (x : BodyM Assembly α) (y : BodyM Assembly β) : Prop :=
  ∀ s t b t', s.Tidy → s.names = t.names → y t = .ok b t' →
    match x s with
    | .ok a s' => R a b ∧ s'.names = t'.names ∧ s.Grows s' ∧ s'.jumps = s.jumps
    | .error d _ => ¬ d.BlamesScript

namespace Echoes

variable {x : BodyM Assembly α} {y : BodyM Assembly β} {f : α → BodyM Assembly γ} {g : β → BodyM Assembly δ}

theorem bind (hx : Echoes R x y) (hf : ∀ a b, R a b → Echoes S (f a) (g b)) :
    Echoes S (x >>= f) (y >>= g) := by
  intro s t c t' hs hn hy
  obtain ⟨b, t₁, hy, hg⟩ := run_bind_ok hy
  have hfirst := hx s t b t₁ hs hn hy
  cases hxs : x s with
  | error d s₁ =>
    rw [hxs] at hfirst
    rw [run_bind_of_error hxs]
    exact hfirst
  | ok a s₁ =>
    rw [hxs] at hfirst
    obtain ⟨hab, hn₁, hgrows₁, hj₁⟩ := hfirst
    rw [run_bind_of_ok hxs]
    have hrest := hf a b hab s₁ t₁ c t' hgrows₁.tidy hn₁ hg
    cases hfs : f a s₁ with
    | error d s₂ =>
      rw [hfs] at hrest
      exact hrest
    | ok a' s₂ =>
      rw [hfs] at hrest
      obtain ⟨hr, hn₂, hgrows₂, hj₂⟩ := hrest
      exact ⟨hr, hn₂, hgrows₁.trans hgrows₂, hj₂.trans hj₁⟩

theorem pure {a : α} {b : β} (h : R a b) : Echoes R (pure a) (pure b) := by
  intro s t b' t' hs hn hy
  obtain ⟨rfl, rfl⟩ := run_pure_ok hy
  exact ⟨h, hn, .refl hs, rfl⟩

/-- What fails has no echo to give. -/
theorem throw (x : BodyM Assembly α) (d : Diagnostic) : Echoes R x (throw d) := by
  intro s t b t' _ _ hy
  cases hy

theorem get_bind {f : BodyState Assembly → BodyM Assembly γ} {g : BodyState Assembly → BodyM Assembly δ}
    (h : ∀ s t : BodyState Assembly, s.names = t.names → Echoes S (f s) (g t)) :
    Echoes S (get >>= f) (get >>= g) :=
  fun s t d t' hs hn hy => h s t hn s t d t' hs hn hy

end Echoes

theorem lift_echoes (r : Except Diagnostic α) : Echoes Eq (lift r) (lift r) := by
  cases r with
  | ok a => exact .pure rfl
  | error d => exact .throw _ d

theorem atLine_echoes (line line' : Nat) : Echoes Unrelated (atLine line) (atLine line') := by
  intro s t b t' hs hn hy
  cases hy
  obtain ⟨w, hw⟩ := hs.ready
  exact ⟨trivial, hn, (atLine_writes hw rfl).leads.grows, rfl⟩

theorem write_echoes (code code' : List (Instr Label)) : Echoes Unrelated (write code) (write code') := by
  intro s t b t' hs hn hy
  cases hy
  obtain ⟨w, hw⟩ := hs.ready
  exact ⟨trivial, hn, (write_writes hw rfl).leads.grows, rfl⟩

theorem newLabel_echoes (purpose : LabelPurpose) (construct : String) (line : Nat) :
    Echoes Unrelated (newLabel purpose construct line) (newLabel purpose construct line) := by
  intro s t b t' hs hn hy
  cases hy
  obtain ⟨w, hw⟩ := hs.ready
  exact ⟨trivial, hn, (newLabel_writes hw rfl).leads.grows, rfl⟩

theorem mark_run {a : Unit} (h : mark label line s = .ok a t) : t.names = s.names ∧ t.jumps = s.jumps := by
  obtain ⟨_, _, hget, h⟩ := run_bind_ok h
  cases hget
  obtain ⟨book, _, hbook, h⟩ := run_bind_ok h
  obtain ⟨-, rfl⟩ := lift_ok hbook
  cases h
  exact ⟨rfl, rfl⟩

/-- Only a defect keeps a label from being bound. -/
theorem mark_error {d : Diagnostic} (h : mark label line s = .error d t) : ¬ d.BlamesScript := by
  have hbook : s.book.mark label line = .error d := by
    cases hb : s.book.mark label line with
    | error e =>
      simp only [mark, run_get_bind, hb] at h
      cases h
      rfl
    | ok book =>
      simp only [mark, run_get_bind, hb] at h
      cases h
  exact LabelBook.mark_error hbook

theorem mark_echoes (label label' : Label) (line line' : Nat) :
    Echoes Unrelated (mark label line) (mark label' line') := by
  intro s t b t' hs hn hy
  cases hrun : mark label line s with
  | error d s' => exact mark_error hrun
  | ok a s' =>
    obtain ⟨w, hw⟩ := hs.ready
    obtain ⟨hsnames, hjumps⟩ := mark_run hrun
    obtain ⟨htnames, -⟩ := mark_run hy
    exact ⟨trivial, by rw [hsnames, hn, htnames], (mark_writes hw hrun).1.leads.grows, hjumps⟩

theorem changeNames_echoes (f : Names → Names) : Echoes Unrelated (changeNames f) (changeNames f) := by
  intro s t b t' hs hn hy
  cases hy
  exact ⟨trivial, congrArg f hn, ⟨⟨hs.bound, hs.issued⟩, List.prefix_rfl, fun _ _ h => h⟩, rfl⟩

theorem declare_run {name : String} {ty : Ty} {slot : Nat} {names : Names}
    (h : s.names.declareLocal name ty line = .ok (slot, names)) :
    declare name ty line s = .ok slot { s with names } := by
  simp only [declare, run_get_bind, h]
  rfl

theorem declare_echoes (name : String) (ty : Ty) (line : Nat) :
    Echoes Eq (declare name ty line) (declare name ty line) := by
  intro s t slot t' hs hn hy
  obtain ⟨_, _, hget, hy⟩ := run_bind_ok hy
  cases hget
  obtain ⟨⟨slot', names⟩, _, hl, hy⟩ := run_bind_ok hy
  obtain ⟨hd, rfl⟩ := lift_ok hl
  cases hy
  rw [declare_run (hn ▸ hd)]
  exact ⟨rfl, rfl, ⟨⟨hs.bound, hs.issued⟩, List.prefix_rfl, fun _ _ h => h⟩, rfl⟩

/-- The expression is the same, and the term stands for it. -/
theorem elaborate_echoes (term : Term) : Echoes (fun a b => a = b ∧ ∃ env : Env, env.elaborate term = .ok a)
    (elaborate ctx term) (elaborate ctx term) := by
  refine .bind (R := Eq) (.get_bind fun s t hn => hn ▸ .pure rfl) ?_
  rintro env _ rfl
  cases he : env.elaborate term with
  | error d => exact .throw _ d
  | ok e => exact .pure ⟨rfl, env, he⟩

theorem value_echoes (term : Term) (line : Nat) : Echoes Eq (value ctx term line) (value ctx term line) := by
  refine .bind (elaborate_echoes term) ?_
  rintro e _ ⟨rfl, -⟩
  cases e.ty with
  | some ty => exact .pure rfl
  | none => exact .throw _ _

theorem liftWrite_echoes (r : Except Diagnostic (List (Instr Label))) :
    Echoes Unrelated (do let code ← lift r; write code) (do let code ← lift r; write code) :=
  .bind (lift_echoes r) fun code code' _ => write_echoes code code'

theorem condition_echoes (term : Term) (line : Nat) :
    Echoes Unrelated (condition ctx term line) (condition ctx term line) := by
  refine .bind (value_echoes term line) ?_
  rintro ⟨e, ty⟩ _ rfl
  exact liftWrite_echoes _

theorem effect_echoes (e : Expr) : Echoes Unrelated (effect e) (effect e) := liftWrite_echoes _

theorem effectAll_echoes (es : List Expr) : Echoes Unrelated (effectAll es) (effectAll es) := by
  induction es with
  | nil => exact .pure trivial
  | cons e rest ih => exact .bind (effect_echoes e) fun _ _ _ => ih

theorem effects_echoes (terms : List Term) : Echoes Unrelated (effects ctx terms) (effects ctx terms) := by
  refine .bind (R := Eq) (.get_bind fun s t hn => hn ▸ .pure rfl) ?_
  rintro env _ rfl
  refine .bind (lift_echoes _) ?_
  rintro es _ rfl
  exact effectAll_echoes es

theorem declaration_echoes (ty : Ty) (name : String) (init : Option Term) (line : Nat) :
    Echoes Unrelated (declaration ctx ty name init line) (declaration ctx ty name init line) := by
  have hstore : Echoes Unrelated (do let slot ← declare name ty line; write [.store (.loc slot)])
      (do let slot ← declare name ty line; write [.store (.loc slot)]) :=
    .bind (declare_echoes name ty line) fun slot slot' _ => write_echoes _ _
  cases init with
  | none => exact .bind (write_echoes _ _) fun _ _ _ => hstore
  | some term =>
    refine .bind (value_echoes term line) ?_
    rintro ⟨e, found⟩ _ rfl
    by_cases ha : ty.accepts found = true
    · simp only [ha, if_true]
      exact .bind (liftWrite_echoes _) fun _ _ _ => hstore
    · simp only [ha]
      exact .throw _ _

/-- An expression that is no label is an effect. -/
theorem expression_echoes {term : Term} (hl : term.isLabel = false) (line : Nat) :
    Echoes Unrelated (expression ctx term line line) (expression ctx term line line) := by
  refine .bind (elaborate_echoes term) ?_
  rintro e _ ⟨rfl, env, he⟩
  cases e with
  | label info name => simp [Env.elaborate_label he] at hl
  | literal | load | member | unary | binary | assign | step | cast | convert | call | vector
  | rotation | list =>
    exact effect_echoes _

theorem returning_echoes (result : Option Term) (line : Nat) :
    Echoes Unrelated (returning ctx result line) (returning ctx result line) := by
  unfold returning
  split
  · refine .bind (value_echoes _ line) ?_
    rintro ⟨e, found⟩ _ rfl
    dsimp only
    split
    · exact .bind (liftWrite_echoes _) fun _ _ _ => write_echoes _ _
    · exact .throw _ _
  · exact .throw _ _
  · split
    · exact .throw _ _
    · exact .throw _ _
  · exact write_echoes _ _

theorem stateChange_echoes (name : String) (line : Nat) :
    Echoes Unrelated (stateChange ctx name line) (stateChange ctx name line) := by
  unfold stateChange
  split
  · exact .throw _ _
  · refine .get_bind fun s t hn => ?_
    rw [hn]
    split
    · exact write_echoes _ _
    · exact .throw _ _

theorem loopJump_echoes {target target' : Option Label} (h : target.isSome = target'.isSome) (word : Keyword)
    (line : Nat) : Echoes Unrelated (loopJump target word line) (loopJump target' word line) := by
  cases target' with
  | none => exact .throw _ _
  | some label' =>
    obtain ⟨label, rfl⟩ := Option.isSome_iff_exists.mp h
    exact write_echoes _ _

theorem meetingPoint_echoes (h : known.isSome = known'.isSome) (line : Nat) :
    Echoes Unrelated (meetingPoint known line) (meetingPoint known' line) := by
  cases known' with
  | none =>
    obtain rfl : known = none := by simpa using h
    exact newLabel_echoes _ _ line
  | some label' =>
    obtain ⟨label, rfl⟩ := Option.isSome_iff_exists.mp h
    exact .pure trivial

theorem markKnown_echoes (h : known.isSome = known'.isSome) (line : Nat) :
    Echoes Unrelated (markKnown known line) (markKnown known' line) := by
  cases known' with
  | none =>
    obtain rfl : known = none := by simpa using h
    exact .pure trivial
  | some label' =>
    obtain ⟨label, rfl⟩ := Option.isSome_iff_exists.mp h
    exact mark_echoes label label' line line

theorem armCondition_echoes (construct : Construct) (term : Term) (line : Nat) :
    Echoes Unrelated (armCondition ctx construct term line) (armCondition ctx construct term line) := by
  refine .bind (condition_echoes term line) fun _ _ _ => .bind (newLabel_echoes _ _ line) fun l l' _ => ?_
  exact .bind (write_echoes _ _) fun _ _ _ => .pure trivial

theorem nextArm_echoes {meeting meeting' : Option Label} (h : meeting.isSome = meeting'.isSome)
    (otherwise otherwise' : Label) (start line : Nat) :
    Echoes Unrelated (nextArm meeting otherwise start line) (nextArm meeting' otherwise' start line) := by
  refine .bind (atLine_echoes line line) fun _ _ _ => .bind (meetingPoint_echoes h start) fun l l' _ => ?_
  refine .bind (write_echoes _ _) fun _ _ _ =>
    .bind (mark_echoes otherwise otherwise' line line) fun _ _ _ => ?_
  exact .pure trivial

theorem declareParams_echoes (line : Nat) (params : List Param) :
    Echoes Unrelated (declareParams line params) (declareParams line params) := by
  induction params with
  | nil => exact .pure trivial
  | cons p rest ih => exact .bind (declare_echoes p.name p.ty line) fun _ _ _ => ih

end Body

end WorldScript
