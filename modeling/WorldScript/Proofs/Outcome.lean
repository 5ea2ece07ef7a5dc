import WorldScript.Script.Session

/-! # Where results come from

Work in several steps has a result only if every step has one.
-/

namespace WorldScript

variable {ε σ α β : Type} {x : Except ε α} {f : α → Except ε β} {b : β} {a : α} {s t : σ} {as : List α}
  {bs : List β}

theorem bind_ok : x >>= f = .ok b ↔ ∃ a, x = .ok a ∧ f a = .ok b := by
  cases x with
  | error e => simp [bind, Except.bind]
  | ok a => simp [bind, Except.bind]

theorem map_ok {f : α → β} : x.map f = .ok b ↔ ∃ a, x = .ok a ∧ f a = b := by
  cases x with
  | error e => simp [Except.map]
  | ok a => simp [Except.map]

theorem pure_ok {b : α} : (pure a : Except ε α) = .ok b ↔ a = b := by
  simp [pure, Except.pure]

theorem ok_of_isOk (h : x.isOk = true) : ∃ a, x = .ok a := by
  cases x with
  | error e => cases h
  | ok a => exact ⟨a, rfl⟩

theorem ok_of_any {P : α → Bool} (h : x.toOption.any P = true) : ∃ a, x = .ok a ∧ P a = true := by
  cases x with
  | error e => cases h
  | ok a => exact ⟨a, rfl, h⟩

/-- The two steps of work that keeps a state. -/
theorem run_bind_ok {x : EStateM ε σ α} {f : α → EStateM ε σ β} {s' : σ} (h : (x >>= f) s = .ok b s') :
    ∃ a t, x s = .ok a t ∧ f a t = .ok b s' := by
  change EStateM.bind x f s = .ok b s' at h
  unfold EStateM.bind at h
  cases hx : x s with
  | error e t => simp [hx] at h
  | ok a t => exact ⟨a, t, rfl, by simpa only [hx] using h⟩

theorem run_bind_of_ok {x : EStateM ε σ α} {f : α → EStateM ε σ β} (h : x s = .ok a t) :
    (x >>= f) s = f a t := by
  change EStateM.bind x f s = f a t
  unfold EStateM.bind
  rw [h]

theorem run_bind_of_error {x : EStateM ε σ α} {f : α → EStateM ε σ β} {e : ε} (h : x s = .error e t) :
    (x >>= f) s = .error e t := by
  change EStateM.bind x f s = .error e t
  unfold EStateM.bind
  rw [h]

theorem run_get_bind {f : σ → EStateM ε σ α} : (get >>= f) s = f s s := rfl

theorem run_set_bind {f : PUnit → EStateM ε σ α} : (set t >>= f) s = f ⟨⟩ t := rfl

theorem run_pure_ok {b : α} {s' : σ} (h : (pure a : EStateM ε σ α) s = .ok b s') : a = b ∧ s = s' := by
  change EStateM.Result.ok a s = .ok b s' at h
  exact ⟨(EStateM.Result.ok.inj h).1, (EStateM.Result.ok.inj h).2⟩

/-- Results for the items of a list, item by item. -/
theorem mapM_getElem? (h : as.mapM f = .ok bs) :
    as.length = bs.length ∧
      ∀ (i : Nat) (b : β), bs[i]? = some b → ∃ a, as[i]? = some a ∧ f a = .ok b := by
  induction as generalizing bs with
  | nil =>
    cases h
    simp
  | cons a as ih =>
    simp only [List.mapM_cons, bind_ok, pure_ok] at h
    obtain ⟨b, hb, rest, hrest, rfl⟩ := h
    obtain ⟨hlen, hget⟩ := ih hrest
    refine ⟨by simp [hlen], ?_⟩
    intro i c hc
    cases i with
    | zero =>
      cases hc
      exact ⟨a, rfl, hb⟩
    | succ i => exact hget i c (by simpa using hc)

theorem mapM_mem (h : as.mapM f = .ok bs) (hb : b ∈ bs) : ∃ a ∈ as, f a = .ok b := by
  obtain ⟨i, hi⟩ := List.mem_iff_getElem?.mp hb
  obtain ⟨a, ha, hf⟩ := (mapM_getElem? h).2 i b hi
  exact ⟨a, List.mem_of_getElem? ha, hf⟩

theorem mapM_map {γ : Type} (h : as.mapM f = .ok bs) {j : α → γ} {k : β → γ}
    (hf : ∀ a b, f a = .ok b → k b = j a) : bs.map k = as.map j := by
  induction as generalizing bs with
  | nil =>
    cases h
    rfl
  | cons a as ih =>
    simp only [List.mapM_cons, bind_ok, pure_ok] at h
    obtain ⟨b, hb, rest, hrest, rfl⟩ := h
    simp [hf a b hb, ih hrest]

namespace Session

variable {limit : Nat} {s : List Diagnostic}

theorem note_ok {d : Diagnostic} {t : List Diagnostic} {a : Unit} (h : note limit d s = .ok a t) :
    t = s ++ [d] := by
  obtain ⟨_, u, hu, h⟩ := run_bind_ok h
  cases hu
  obtain ⟨_, u, hu, h⟩ := run_bind_ok h
  cases hu
  split at h
  · exact (run_pure_ok h).2.symm
  · cases h

theorem collect_grows {f : α → Except Diagnostic β} {as : List α} {bs : List β} {t : List Diagnostic}
    (h : collect limit f as s = .ok bs t) : s <+: t := by
  induction as generalizing s bs with
  | nil =>
    obtain ⟨-, rfl⟩ := run_pure_ok h
    exact List.prefix_rfl
  | cons a rest ih =>
    cases hf : f a with
    | ok b =>
      simp only [collect, hf] at h
      obtain ⟨others, u, hu, h⟩ := run_bind_ok h
      obtain ⟨-, rfl⟩ := run_pure_ok h
      exact ih hu
    | error d =>
      simp only [collect, hf] at h
      obtain ⟨_, u, hu, h⟩ := run_bind_ok h
      have hle := ih h
      rw [note_ok hu] at hle
      exact (List.prefix_append _ _).trans hle

/-- Where no problem is left in the report, every item has its result. -/
theorem collect_clean {f : α → Except Diagnostic β} {as : List α} {bs : List β}
    (h : collect limit f as s = .ok bs []) : s = [] ∧ as.mapM f = .ok bs := by
  induction as generalizing s bs with
  | nil =>
    obtain ⟨rfl, hs⟩ := run_pure_ok h
    exact ⟨hs, rfl⟩
  | cons a rest ih =>
    cases hf : f a with
    | ok b =>
      simp only [collect, hf] at h
      obtain ⟨others, u, hu, h⟩ := run_bind_ok h
      obtain ⟨rfl, rfl⟩ := run_pure_ok h
      obtain ⟨hs, hrest⟩ := ih hu
      exact ⟨hs, by simp [hf, hrest, bind, Except.bind, pure, Except.pure]⟩
    | error d =>
      simp only [collect, hf] at h
      obtain ⟨_, u, hu, h⟩ := run_bind_ok h
      have hle := collect_grows h
      rw [note_ok hu] at hle
      simp at hle

theorem outcome_ok {work : Session α} {a : α} (h : outcome work = .ok a) : work [] = .ok a [] := by
  unfold outcome at h
  split at h
  · rename_i found hw
    cases h
    exact hw
  · cases h
  · cases h

end Session

end WorldScript
