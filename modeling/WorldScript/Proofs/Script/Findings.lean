import WorldScript.Proofs.Script.Checking
import WorldScript.Proofs.Script.Plain

/-! # All findings

What is wrong with a source is a list that does not depend on how much a report has room for.  The work on
a source notes this list from its start until the report is full, so a report is the first part of it.
Each part of a script that has code of its own adds one problem at most.
-/

namespace WorldScript

variable {α : Type}

namespace Session

variable {α β : Type} {r : Except Diagnostic α}

/-- How work ends that has `found` in its report, or would have if there were room for all of it. -/
def ending (limit : Nat) (result : Option α) (found : List Diagnostic) :
    EStateM.Result Unit (List Diagnostic) α :=
  if found.length < limit then
    match result with
    | some a => .ok a found
    | none => .error () found
  else .error () (found.take limit)

/-- Work that finds the problems `found`, in this order, and has a result unless it gives up. -/
def Finds (limit : Nat) (work : Session α) (found : List Diagnostic) (result : Option α) : Prop :=
  ∀ s, s.length < limit → work s = ending limit result (s ++ found)

namespace Finds

variable {limit : Nat} {x : Session α} {f : α → Session β} {found more : List Diagnostic} {a : α}
  {r : Option β}

theorem pure (a : α) : Finds limit (Pure.pure a) [] (some a) := by
  intro s hs
  rw [List.append_nil, ending, if_pos hs]
  rfl

theorem bind (hx : Finds limit x found (some a)) (hf : Finds limit (f a) more r) :
    Finds limit (x >>= f) (found ++ more) r := by
  intro s hs
  have hxs := hx s hs
  by_cases hroom : (s ++ found).length < limit
  · rw [ending, if_pos hroom] at hxs
    rw [run_bind_of_ok hxs, hf _ hroom, List.append_assoc]
  · -- the report is full before `f` starts
    rw [ending, if_neg hroom] at hxs
    have hfull : ¬ (s ++ (found ++ more)).length < limit := by
      simp only [List.length_append] at hroom ⊢
      omega
    rw [run_bind_of_error hxs, ending.eq_def, if_neg hfull, ← List.append_assoc,
      List.take_append_of_le_length (Nat.le_of_not_lt hroom)]

theorem map (hx : Finds limit x found (some a)) (g : α → β) :
    Finds limit (x >>= fun a => Pure.pure (g a)) found (some (g a)) := by
  rw [← List.append_nil found]
  exact hx.bind (.pure _)

theorem giveUp (hx : Finds limit x found none) : Finds limit (x >>= f) found none := by
  intro s hs
  have hxs := hx s hs
  unfold ending at hxs ⊢
  split at hxs
  · rename_i hroom
    rw [run_bind_of_error hxs, if_pos hroom]
  · rename_i hroom
    rw [run_bind_of_error hxs, if_neg hroom]

end Finds

variable {limit : Nat}

theorem note_finds (d : Diagnostic) : Finds limit (note limit d) [d] (some ()) := by
  intro s hs
  rw [note_eq, ending]
  split
  · rfl
  · have hlength : (s ++ [d]).length ≤ limit := by
      rw [List.length_append, List.length_singleton]
      exact hs
    rw [List.take_of_length_le hlength]

theorem throw_finds : Finds limit (throw () : Session α) [] none := by
  intro s hs
  rw [List.append_nil, ending, if_pos hs]
  rfl

theorem noteAll_finds (ds : List Diagnostic) : Finds limit (noteAll limit ds) ds (some ()) := by
  induction ds with
  | nil => exact .pure ()
  | cons d rest ih => exact (note_finds d).bind ih

theorem noteStop_finds (ds : List Diagnostic) (rest : Unit → Session α) :
    Finds limit (noteAll limit ds >>= fun _ => throw () >>= rest) ds none := by
  have h : Finds limit (throw () >>= rest) [] none := throw_finds.giveUp
  have hall := (noteAll_finds ds).bind (f := fun _ => throw () >>= rest) h
  rwa [List.append_nil] at hall

theorem require_finds_ok {a : α} (h : r = .ok a) : Finds limit (require limit r) [] (some a) := by
  subst h
  exact .pure a

theorem require_finds_error {d : Diagnostic} (h : r = .error d) : Finds limit (require limit r) [d] none := by
  subst h
  exact (note_finds d).bind throw_finds

def problem? : Except Diagnostic α → Option Diagnostic
  | .ok _ => none
  | .error d => some d

/-- Parts that are worked on one by one are all looked at. -/
theorem collect_finds (f : α → Except Diagnostic β) (as : List α) :
    Finds limit (collect limit f as) (as.filterMap fun a => problem? (f a))
      (some (as.filterMap fun a => (f a).toOption)) := by
  induction as with
  | nil => exact .pure []
  | cons a rest ih =>
    rw [collect]
    cases hf : f a with
    | ok b =>
      have hfound : (a :: rest).filterMap (fun a => problem? (f a)) =
          rest.filterMap fun a => problem? (f a) := by simp [hf, problem?]
      have hresult : (a :: rest).filterMap (fun a => (f a).toOption) =
          b :: rest.filterMap fun a => (f a).toOption := by simp [hf, Except.toOption]
      rw [hfound, hresult]
      exact ih.map (b :: ·)
    | error d =>
      have hfound : (a :: rest).filterMap (fun a => problem? (f a)) =
          [d] ++ rest.filterMap fun a => problem? (f a) := by simp [hf, problem?]
      have hresult : (a :: rest).filterMap (fun a => (f a).toOption) =
          rest.filterMap fun a => (f a).toOption := by simp [hf, Except.toOption]
      rw [hfound, hresult]
      exact (note_finds d).bind ih

end Session

def reported {α : Type} : Except (List Diagnostic) α → List Diagnostic
  | .ok _ => []
  | .error ds => ds

theorem reported_map {β : Type} (r : Except (List Diagnostic) α) (f : α → β) :
    reported (r.map f) = reported r := by
  cases r <;> rfl

/-- A report holds as many of the findings as it has room for, the first ones first. -/
theorem Session.Finds.reported {limit : Nat} {work : Session α} {found : List Diagnostic}
    {result : Option α} (h : Finds limit work found result) (hlimit : 0 < limit) :
    reported (outcome work) = found.take limit := by
  have hrun : work.run [] = ending limit result found := h [] hlimit
  unfold outcome
  rw [hrun, ending.eq_def]
  by_cases hroom : found.length < limit
  · rw [if_pos hroom, List.take_of_length_le (Nat.le_of_lt hroom)]
    cases result with
    | none => rfl
    | some a => cases found <;> rfl
  · rw [if_neg hroom]
    rfl

theorem CompileOptions.limit_pos (o : CompileOptions) : 0 < o.limit := by
  unfold limit
  split <;> omega

namespace Script

inductive Job where
  | initializer (decl : GlobalDecl) (slot : Nat)
  | function (decl : FunctionDecl)
  | handler (decl : HandlerDecl)

def Job.problem? (env : Env) : Job → Option Diagnostic
  | .initializer d slot => Session.problem? (globalSlot .chunks env d slot)
  | .function d => Session.problem? (Script.function .chunks env d)
  | .handler d => Session.problem? (Script.handler .chunks env d)

def jobs (o : Outline) : List Job :=
  o.globals.zipIdx.map (fun d => .initializer d.1 d.2) ++ o.functions.map .function
    ++ o.states.flatMap fun s => s.handlers.map .handler

def outlineFindings (registry : Registry) (visibility : Visibility) (last : Nat) (ds : List Declaration) :
    List Diagnostic :=
  let (o, problems) := Outline.ofDeclarations ds
  problems ++ (o.problems registry visibility last ++ (jobs o).filterMap
    (Job.problem? ⟨registry, visibility, o.names⟩))

def tokenFindings (registry : Registry) (visibility : Visibility) (tokens : List Token) : List Diagnostic :=
  match longProblems registry tokens with
  | d :: ds => d :: ds
  | [] =>
    match Declaration.listOfTokens tokens with
    | .error d => [d]
    | .ok ds => outlineFindings registry visibility (lastLine 1 tokens) ds

def findings (registry : Registry) (visibility : Visibility) (replacements : Replacements) (source : String) :
    List Diagnostic :=
  match Directive.ofSource replacements source with
  | .error d => [d]
  | .ok directives =>
    match tokenize (Directive.blank replacements directives) source with
    | .error d => [d]
    | .ok tokens => tokenFindings registry (Directive.applyAll visibility directives) tokens

structure Reads (registry : Registry) (replacements : Replacements) (source : String)
    (directives : List (Nat × Directive)) (tokens : List Token) : Prop where
  ofSource : Directive.ofSource replacements source = .ok directives
  tokenized : tokenize (Directive.blank replacements directives) source = .ok tokens
  noLong : longProblems registry tokens = []

/-- A plain source whose tokens pass a test. -/
theorem exists_reads (registry : Registry) {chars : List Char} (hs : source.toList = chars)
    (hplain : '#' ∉ chars) (P : List Token → Bool)
    (h : ((charTokens chars).toOption.any fun ts => (longProblems registry ts).isEmpty && P ts) = true) :
    ∃ tokens, Reads registry [] source [] tokens ∧ P tokens = true := by
  obtain ⟨tokens, htokens, h⟩ := ok_of_any h
  rw [Bool.and_eq_true, List.isEmpty_iff] at h
  refine ⟨tokens, ⟨Directive.ofSource_of_plain (hs.symm ▸ hplain), ?_, h.1⟩, h.2⟩
  exact (tokenize_eq_charTokens hs).trans htokens

theorem Reads.unique {directives' : List (Nat × Directive)} {tokens' : List Token}
    (h : Reads registry replacements source directives tokens)
    (h' : Reads registry replacements source directives' tokens') : tokens = tokens' := by
  obtain rfl := Except.ok.inj (h.ofSource.symm.trans h'.ofSource)
  exact Except.ok.inj (h.tokenized.symm.trans h'.tokenized)

theorem Reads.findings (h : Reads registry replacements source directives tokens) (visibility : Visibility) :
    findings registry visibility replacements source =
      match Declaration.listOfTokens tokens with
      | .error d => [d]
      | .ok ds =>
        outlineFindings registry (Directive.applyAll visibility directives) (lastLine 1 tokens) ds := by
  unfold Script.findings
  rw [h.ofSource]
  dsimp only
  rw [h.tokenized]
  dsimp only
  rw [tokenFindings, h.noLong]

variable (limit : Nat) {source : String} {registry : Registry} {replacements : Replacements}
  {directives : List (Nat × Directive)} {tokens : List Token}

theorem states_finds (env : Env) (ds : List StateDecl) :
    ∃ ss, Session.Finds limit (states limit .chunks env ds)
      ((ds.flatMap fun s => s.handlers.map Job.handler).filterMap (Job.problem? env)) (some ss) := by
  induction ds with
  | nil => exact ⟨[], .pure []⟩
  | cons d rest ih =>
    obtain ⟨ss, hss⟩ := ih
    refine ⟨⟨d.name, d.handlers.filterMap fun h => (handler .chunks env h).toOption⟩ :: ss, ?_⟩
    rw [List.flatMap_cons, List.filterMap_append, List.filterMap_map]
    exact (Session.collect_finds (handler .chunks env) d.handlers).bind (hss.map _)

theorem program_finds (registry : Registry) (visibility : Visibility) (o : Outline) :
    ∃ p, Session.Finds limit (program limit .chunks registry visibility o)
      ((jobs o).filterMap (Job.problem? ⟨registry, visibility, o.names⟩)) (some p) := by
  obtain ⟨ss, hstates⟩ := states_finds limit ⟨registry, visibility, o.names⟩ o.states
  rw [jobs, List.filterMap_append, List.filterMap_append, List.filterMap_map, List.filterMap_map,
    List.append_assoc]
  exact ⟨_, (Session.collect_finds _ _).bind ((Session.collect_finds _ _).bind (hstates.map _))⟩

theorem tokens_finds (registry : Registry) (visibility : Visibility) (tokens : List Token) :
    ∃ result, Session.Finds limit (tokenWork limit registry visibility tokens)
      (tokenFindings registry visibility tokens) result := by
  unfold tokenWork tokenFindings
  cases hlong : longProblems registry tokens with
  | cons d ds => exact ⟨none, Session.noteStop_finds (d :: ds) _⟩
  | nil =>
    cases hdeclarations : Declaration.listOfTokens tokens with
    | error d =>
      exact ⟨none, (Session.noteAll_finds []).bind (Session.require_finds_error rfl).giveUp⟩
    | ok ds =>
      obtain ⟨p, hp⟩ := program_finds limit registry visibility (Outline.ofDeclarations ds).1
      refine ⟨some p, (Session.noteAll_finds []).bind ((Session.require_finds_ok rfl).bind ?_)⟩
      exact (Session.noteAll_finds _).bind ((Session.noteAll_finds _).bind hp)

theorem work_finds (registry : Registry) (options : CompileOptions) (replacements : Replacements)
    (source : String) :
    ∃ result, Session.Finds options.limit (work .chunks registry options replacements source)
      (findings registry options.visibility replacements source) result := by
  unfold work findings
  dsimp only
  cases hdirectives : Directive.ofSource replacements source with
  | error d => exact ⟨none, (Session.require_finds_error rfl).giveUp⟩
  | ok directives =>
    dsimp only
    cases htokens : tokenize (Directive.blank replacements directives) source with
    | error d =>
      exact ⟨none, (Session.require_finds_ok rfl).bind (Session.require_finds_error htokens).giveUp⟩
    | ok tokens =>
      obtain ⟨result, h⟩ := tokens_finds options.limit registry
        (Directive.applyAll options.visibility directives) tokens
      exact ⟨result, (Session.require_finds_ok rfl).bind ((Session.require_finds_ok htokens).bind h)⟩

/-- The report on a source is the first part of its findings. -/
theorem compile_reported (registry : Registry) (options : CompileOptions) (replacements : Replacements)
    (source : String) : reported (compile registry options replacements source) =
      (findings registry options.visibility replacements source).take options.limit := by
  obtain ⟨result, h⟩ := work_finds registry options replacements source
  exact h.reported options.limit_pos

end Script

end WorldScript
