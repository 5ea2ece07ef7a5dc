import WorldScript.Proofs.Body.Isolation
import WorldScript.Proofs.Script.Findings
import WorldScript.Proofs.Script.Typing
import WorldScript.Report

/-! # Limits cut reports short

A limit decides how much of what is wrong with a source is told, never what is told first.  Behind this
stands that the parts of a script have their problems each for itself: whether they are worked on alone or
one after another on the same names, each adds the same problem to a report, or none.
-/

namespace WorldScript

namespace Script

def namesAfter (ctx : BodyContext) (names : Names) (params : List Param) (body : Block) : Names :=
  let work := Body.compile ctx params body.openLine body.closeLine body.tokens
  (stateAfter (work.run (Body.start names Generator.chunks.start))).names

theorem namesAfter_beginBody (ctx : BodyContext) (names : Names) (params : List Param) (body : Block) :
    (namesAfter ctx names params body).beginBody = names.beginBody := by
  have hspares := Body.compileTree_spares ctx params body.openLine body.closeLine body.tokens
    (Body.start names Assembly.empty)
  unfold namesAfter EStateM.run
  dsimp only [Generator.chunks]
  cases hrun : Body.compile ctx params body.openLine body.closeLine body.tokens
    (Body.start names Assembly.empty) with
  | ok locals s =>
    obtain ⟨t, ht, hst⟩ := Body.compile_ok Body.assembly_reliable hrun
    rw [ht] at hspares
    exact (congrArg Names.beginBody (BodyState.names_eq_of_undated hst)).trans hspares
  | error d s =>
    obtain ⟨t, ht, -, hnames⟩ := Body.compile_error Body.assembly_reliable hrun
    rw [ht] at hspares
    exact (congrArg Names.beginBody hnames).trans hspares

def Job.leaves (env : Env) : Job → Names
  | .initializer _ slot => env.names.beginBody.showGlobals slot
  | .function d =>
    namesAfter ⟨env.registry, env.visibility, .function d.signature.returns⟩ env.names
      d.signature.params d.body
  | .handler d => namesAfter ⟨env.registry, env.visibility, .event⟩ env.names d.params d.body

/-- The problems with parts that are worked on one after another, each on the names that the last one left. -/
def inTurn (env : Env) : List Job → List (Option Diagnostic)
  | [] => []
  | job :: rest => job.problem? env :: inTurn { env with names := job.leaves env } rest

theorem Job.leaves_beginBody (env : Env) (job : Job) : (job.leaves env).beginBody = env.names.beginBody := by
  cases job with
  | initializer d slot => rfl
  | function d => exact namesAfter_beginBody _ _ _ _
  | handler d => exact namesAfter_beginBody _ _ _ _

/-- A part does not see what a body before it did to the names. -/
theorem Job.problem?_beginBody (env : Env) (job : Job) :
    job.problem? { env with names := env.names.beginBody } = job.problem? env := by
  cases job <;> rfl

theorem Job.problem?_congr {env : Env} {names : Names} (h : names.beginBody = env.names.beginBody)
    (job : Job) : job.problem? { env with names } = job.problem? env := by
  have hnames := job.problem?_beginBody { env with names }
  rw [← hnames, ← job.problem?_beginBody env, h]

theorem inTurn_eq (env : Env) (js : List Job) : inTurn env js = js.map (Job.problem? env) := by
  -- every part is met with names that differ from those of `env` in nothing that it sees
  suffices h : ∀ names : Names, names.beginBody = env.names.beginBody →
      inTurn { env with names } js = js.map (Job.problem? env) from h env.names rfl
  induction js with
  | nil => exact fun _ _ => rfl
  | cons job rest ih =>
    intro names hnames
    have hleft := (job.leaves_beginBody { env with names }).trans hnames
    rw [inTurn, List.map_cons, job.problem?_congr hnames, ih _ hleft]

/-- What is reported if there is room for `n` problems, and only one unless `more`. -/
def reportAt (registry : Registry) (visibility : Visibility) (replacements : Replacements) (source : String)
    (n : Nat) (more : Bool) : List Diagnostic :=
  reported (compile registry ⟨visibility, n, more⟩ replacements source)

theorem reportAt_more (registry : Registry) (visibility : Visibility) (replacements : Replacements)
    (source : String) (n : Nat) : reportAt registry visibility replacements source n true =
      (findings registry visibility replacements source).take (max n 1) :=
  compile_reported registry ⟨visibility, n, true⟩ replacements source

theorem reportAt_one (registry : Registry) (visibility : Visibility) (replacements : Replacements)
    (source : String) (n : Nat) : reportAt registry visibility replacements source n false =
      (findings registry visibility replacements source).take 1 :=
  compile_reported registry ⟨visibility, n, false⟩ replacements source

/-- A smaller limit gives the first part of the same report, and a compilation that stops at once the first
problem of it.  After the problems with the declarations, a report has the problems with the initializers,
functions and handlers in order, one at most for each, and for each the one that it has alone. -/
theorem limits_truncate (registry : Registry) (visibility : Visibility) (replacements : Replacements)
    (source : String) :
    (∀ n m, n ≤ m → reportAt registry visibility replacements source n true =
        (reportAt registry visibility replacements source m true).take (max n 1)) ∧
      (∀ n m, reportAt registry visibility replacements source n false =
        (reportAt registry visibility replacements source m true).take 1) ∧
      (∀ n more, reported (check registry ⟨visibility, n, more⟩ replacements source) =
        reportAt registry visibility replacements source n more) ∧
      ∀ directives tokens ds, Reads registry replacements source directives tokens →
        Declaration.listOfTokens tokens = .ok ds →
        let visible := Directive.applyAll visibility directives
        let outline := (Outline.ofDeclarations ds).1
        let env : Env := ⟨registry, visible, outline.names⟩
        (∀ n, reportAt registry visibility replacements source n true =
          ((Outline.ofDeclarations ds).2 ++ outline.problems registry visible (lastLine 1 tokens) ++
            (inTurn env (jobs outline)).reduceOption).take (max n 1)) ∧
        ∀ js, inTurn env js = js.map (Job.problem? env) := by
  refine ⟨?_, ?_, ?_, ?_⟩
  · intro n m hnm
    have hmin : min (max n 1) (max m 1) = max n 1 := by omega
    rw [reportAt_more, reportAt_more, List.take_take, hmin]
  · intro n m
    have hmin : min 1 (max m 1) = 1 := by omega
    rw [reportAt_one, reportAt_more, List.take_take, hmin]
  · intro n more
    rw [check_eq_map_compile, reported_map, reportAt]
  · intro directives tokens ds hreads hds visible outline env
    refine ⟨fun n => ?_, inTurn_eq env⟩
    have hjobs : (inTurn env (jobs outline)).reduceOption = (jobs outline).filterMap (Job.problem? env) := by
      change (inTurn env (jobs outline)).filterMap id = _
      rw [inTurn_eq, List.filterMap_map]
      rfl
    rw [reportAt_more, hreads.findings, hds, hjobs, List.append_assoc]
    rfl

end Script

namespace Sample

/-- A script with a problem in each of its parts, and a variable that is declared twice. -/
def flawed : String :=
  "integer a = \"x\"; integer a; f() { b; } integer g() { { integer c; c = d; } return 0; } "
    ++ "default { state_entry() { jump away; } }"

theorem flawed_reads : ∃ directives tokens ds, Script.Reads registry [] flawed directives tokens ∧
    Declaration.listOfTokens tokens = .ok ds := by
  have hs : flawed.toList = _ ++ _ :=
    String.toList_append.trans (congrArg₂ _ String.toList_ofList String.toList_ofList)
  obtain ⟨tokens, hreads, hok⟩ := Script.exists_reads registry hs (by decide +kernel)
    (fun ts => (Declaration.listOfTokens ts).isOk) (by decide +kernel)
  obtain ⟨ds, hds⟩ := ok_of_isOk hok
  exact ⟨[], tokens, ds, hreads, hds⟩

end Sample

/-- Five problems, of which a report with room for three has the first three. -/
theorem Script.flawed_report_cut :
    ∃ directives tokens ds,
    Reads Sample.registry [] Sample.flawed directives tokens ∧ Declaration.listOfTokens tokens = .ok ds ∧
      (reportAt Sample.registry Sample.visibility [] Sample.flawed 9 true).length = 5 ∧
      reportAt Sample.registry Sample.visibility [] Sample.flawed 3 true =
        (reportAt Sample.registry Sample.visibility [] Sample.flawed 9 true).take 3 ∧
      reportAt Sample.registry Sample.visibility [] Sample.flawed 9 true =
        ((Outline.ofDeclarations ds).2 ++ (Outline.ofDeclarations ds).1.problems Sample.registry
            (Directive.applyAll Sample.visibility directives) (lastLine 1 tokens) ++
          (inTurn ⟨Sample.registry, Directive.applyAll Sample.visibility directives,
            (Outline.ofDeclarations ds).1.names⟩
            (jobs (Outline.ofDeclarations ds).1)).reduceOption).take 9 := by
  obtain ⟨hcut, -, -, hparts⟩ := limits_truncate Sample.registry Sample.visibility [] Sample.flawed
  obtain ⟨directives, tokens, ds, hreads, hds⟩ := Sample.flawed_reads
  have hfive : (reportAt Sample.registry Sample.visibility [] Sample.flawed 9 true).length = 5 := by
    have hs : Sample.flawed.toList = _ ++ _ :=
      String.toList_append.trans (congrArg₂ _ String.toList_ofList String.toList_ofList)
    rw [reportAt, compile_of_plain hs (by decide +kernel)]
    decide +kernel
  exact ⟨directives, tokens, ds, hreads, hds, hfive, hcut 3 9 (by decide),
    (hparts directives tokens ds hreads hds).1 9⟩

end WorldScript
