import WorldScript.Proofs.Script.Words

/-! # Reports

Work on a script ends early only with a report, and what a report says is about the script.
-/

namespace WorldScript

/-- Where work in two steps ends early. -/
theorem map_error {ε α β : Type} {x : Except ε α} {f : α → β} {e : ε} :
    x.map f = .error e ↔ x = .error e := by
  cases x <;> simp [Except.map]

theorem run_bind_error {ε σ α β : Type} {x : EStateM ε σ α} {f : α → EStateM ε σ β} {s t : σ} {e : ε}
    (h : (x >>= f) s = .error e t) : x s = .error e t ∨ ∃ a u, x s = .ok a u ∧ f a u = .error e t := by
  change EStateM.bind x f s = .error e t at h
  unfold EStateM.bind at h
  cases hx : x s with
  | error e' t' =>
    rw [hx] at h
    cases h
    exact .inl rfl
  | ok a u =>
    rw [hx] at h
    exact .inr ⟨a, u, rfl, h⟩

namespace Session

variable {α β : Type} {d : Diagnostic} {ds : List Diagnostic}

/-- Work that notes diagnostics about the script only, and at least one before it ends early. -/
structure Reports (work : Session α) : Prop where
  ok : ∀ s a t, (∀ d ∈ s, d.BlamesScript) → work s = .ok a t → ∀ d ∈ t, d.BlamesScript
  error : ∀ s e t, (∀ d ∈ s, d.BlamesScript) → work s = .error e t → t ≠ [] ∧ ∀ d ∈ t, d.BlamesScript

namespace Reports

theorem pure (a : α) : Reports (pure a : Session α) := by
  constructor
  · intro s b t hs h
    obtain ⟨-, rfl⟩ := run_pure_ok h
    exact hs
  · intro s e t _ h
    cases h

theorem bind {x : Session α} {f : α → Session β} (hx : Reports x) (hf : ∀ a, Reports (f a)) :
    Reports (x >>= f) := by
  constructor
  · intro s b t hs h
    obtain ⟨a, u, hu, h⟩ := run_bind_ok h
    exact (hf a).ok u b t (hx.ok s a u hs hu) h
  · intro s e t hs h
    obtain h | ⟨a, u, hu, h⟩ := run_bind_error h
    · exact hx.error s e t hs h
    · exact (hf a).error u e t (hx.ok s a u hs hu) h

end Reports

theorem note_eq {limit : Nat} {s : List Diagnostic} :
    note limit d s =
    if (s ++ [d]).length < limit then .ok () (s ++ [d]) else .error () (s ++ [d]) := by
  change (if (s ++ [d]).length < limit then pure () else throw () : Session Unit) (s ++ [d]) = _
  split <;> rfl

theorem note_reports (limit : Nat) (hd : d.BlamesScript) : Reports (note limit d) := by
  have hmore {s : List Diagnostic} (hs : ∀ e ∈ s, e.BlamesScript) : ∀ e ∈ s ++ [d], e.BlamesScript := by
    intro e he
    obtain he | he := List.mem_append.mp he
    · exact hs e he
    · exact List.mem_singleton.mp he ▸ hd
  constructor
  · intro s a t hs h
    rw [note_ok h]
    exact hmore hs
  · intro s e t hs h
    rw [note_eq] at h
    split at h
    · cases h
    · cases h
      exact ⟨by simp, hmore hs⟩

theorem noteAll_reports (limit : Nat) (hds : ∀ d ∈ ds, d.BlamesScript) : Reports (noteAll limit ds) := by
  induction ds with
  | nil => exact .pure ()
  | cons d rest ih =>
    refine .bind (note_reports limit (hds d List.mem_cons_self)) fun _ => ?_
    exact ih fun e he => hds e (List.mem_cons_of_mem _ he)

theorem noteAll_ok {limit : Nat} {s t : List Diagnostic} {a : Unit} (h : noteAll limit ds s = .ok a t) :
    t = s ++ ds := by
  induction ds generalizing s with
  | nil =>
    obtain ⟨-, rfl⟩ := run_pure_ok h
    simp
  | cons d rest ih =>
    obtain ⟨_, u, hu, h⟩ := run_bind_ok h
    rw [ih h, note_ok hu, List.append_assoc, List.singleton_append]

/-- Work may end after something was noted. -/
theorem noteAllThrow_reports (limit : Nat) (hds : ∀ e ∈ d :: ds, e.BlamesScript) {rest : Unit → Session α} :
    Reports (noteAll limit (d :: ds) >>= fun _ => throw () >>= rest) := by
  constructor
  · intro s a t hs h
    obtain ⟨_, u, -, h⟩ := run_bind_ok h
    obtain ⟨_, v, hv, -⟩ := run_bind_ok h
    cases hv
  · intro s e t hs h
    obtain h | ⟨_, u, hu, h⟩ := run_bind_error h
    · exact (noteAll_reports limit hds).error s e t hs h
    · cases h
      have hu' := (noteAll_reports limit hds).ok s _ _ hs hu
      exact ⟨by rw [noteAll_ok hu]; simp, hu'⟩

/-- Work that ends if there was something to note. -/
theorem noteStop_reports (limit : Nat) {rest : Session α} (hds : ∀ d ∈ ds, d.BlamesScript)
    (hrest : Reports rest) :
    Reports (do
      noteAll limit ds
      if !ds.isEmpty then throw ()
      rest) := by
  cases ds with
  | nil => exact .bind (noteAll_reports limit hds) fun _ => hrest
  | cons d more => exact noteAllThrow_reports limit hds

theorem require_reports (limit : Nat) {r : Except Diagnostic α} {P : α → Prop} (h : Yields r P) :
    Reports (require limit r) := by
  cases r with
  | ok a => exact .pure a
  | error d =>
    have hd : d.BlamesScript := h
    constructor
    · intro s a t hs h
      obtain ⟨_, u, -, h⟩ := run_bind_ok h
      cases h
    · intro s e t hs h
      obtain h | ⟨_, u, hu, h⟩ := run_bind_error h
      · exact (note_reports limit hd).error s e t hs h
      · cases h
        exact ⟨by rw [note_ok hu]; simp, (note_reports limit hd).ok s _ _ hs hu⟩

theorem collect_reports (limit : Nat) {f : α → Except Diagnostic β} (P : β → Prop) {as : List α}
    (h : ∀ a ∈ as, Yields (f a) P) : Reports (collect limit f as) := by
  induction as with
  | nil => exact .pure []
  | cons a rest ih =>
    have hrest := ih fun b hb => h b (List.mem_cons_of_mem _ hb)
    have ha := h a List.mem_cons_self
    rw [collect]
    cases hf : f a with
    | ok b => exact .bind hrest fun bs => .pure _
    | error d => exact .bind (note_reports limit (ha.of_error hf)) fun _ => hrest

theorem outcome_reports {work : Session α} (h : Reports work) (hds : outcome work = .error ds) :
    ds ≠ [] ∧ ∀ d ∈ ds, d.BlamesScript := by
  have hnil : ∀ d ∈ ([] : List Diagnostic), d.BlamesScript := fun d hd => absurd hd List.not_mem_nil
  unfold outcome EStateM.run at hds
  cases hw : work [] with
  | ok a t =>
    rw [hw] at hds
    cases t with
    | nil => cases hds
    | cons d rest =>
      cases hds
      exact ⟨by simp, h.ok [] a _ hnil hw⟩
  | error e t =>
    rw [hw] at hds
    cases hds
    exact h.error [] e _ hnil hw

end Session

namespace Script

theorem longProblems_blame (r : Registry) (tokens : List Token) :
    ∀ d ∈ longProblems r tokens, d.BlamesScript := by
  intro d hd
  unfold longProblems at hd
  split at hd
  · cases hd
  · obtain ⟨t, -, rfl⟩ := List.mem_map.mp hd
    exact Diagnostic.semantic_blames _ _

theorem states_reports (limit : Nat) (env : Env) (ds : List StateDecl) :
    Session.Reports (states limit .chunks env ds) := by
  induction ds with
  | nil => exact .pure []
  | cons d rest ih =>
    refine .bind (Session.collect_reports limit (fun h => h.code.Within .everything) fun h _ =>
      ?_) fun handlers => ?_
    · exact handler_yields (Vocabulary.everything_covers _ _) (Vocabulary.everything_admits _)
    · exact .bind ih fun others => .pure _

theorem program_reports (limit : Nat) (r : Registry) (v : Visibility) (o : Outline) :
    Session.Reports (program limit .chunks r v o) := by
  have hcovers := Vocabulary.everything_covers r v
  refine .bind (Session.collect_reports limit (fun g => g.init.Within .everything) fun d _ =>
    ?_) fun globals => ?_
  · exact globalSlot_yields hcovers (Vocabulary.everything_admits _) d.2
  refine .bind (Session.collect_reports limit (fun f => f.code.Within .everything) fun d _ =>
    ?_) fun functions => ?_
  · exact function_yields hcovers (Vocabulary.everything_admits _)
  exact .bind (states_reports limit _ o.states) fun states => .pure _

/-- A compilation that fails says why, and never that the compiler is broken. -/
theorem compile_reports {registry : Registry} {options : CompileOptions} {replacements : Replacements}
    {source : String} {ds : List Diagnostic} (h : compile registry options replacements source = .error ds) :
    ds ≠ [] ∧ ∀ d ∈ ds, d.BlamesScript := by
  refine Session.outcome_reports ?_ h
  refine .bind (Session.require_reports _ (Directive.ofSource_yields _ _)) fun directives => ?_
  refine .bind (Session.require_reports _ (tokenize_yields _ _)) fun tokens => ?_
  -- work that ends early has something in its report by then
  refine Session.noteStop_reports _ (longProblems_blame registry tokens) ?_
  refine .bind (Session.require_reports _ (Declaration.listOfTokens_yields tokens)) fun declarations => ?_
  refine .bind (Session.noteAll_reports _ (Outline.ofDeclarations_drawn declarations).2) fun _ => ?_
  refine .bind (Session.noteAll_reports _ (Outline.problems_blame _ _ _ _)) fun _ => ?_
  exact program_reports _ _ _ _

end Script

end WorldScript
