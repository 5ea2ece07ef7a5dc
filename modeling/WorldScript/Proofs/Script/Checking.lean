import WorldScript.Proofs.Body.Stack
import WorldScript.Proofs.Script.Reports
import WorldScript.Proofs.Script.Simulation

/-! # Checking and compiling

A script is checked by compiling it with a receiver that only counts labels.  Nothing is lost by that:
whether a script is accepted, and what is wrong with it if not, does not depend on the receiver.  In
particular code can always be finished once its body is worked through.
-/

namespace WorldScript

theorem Generator.nothing_start : Generator.nothing.start = Generator.chunks.start.counted := rfl

namespace Body

def SameEnd (x : EStateM.Result Diagnostic (BodyState LabelCount) (List Param))
    (y : EStateM.Result Diagnostic (BodyState Assembly) (List Param)) : Prop :=
  match x, y with
  | .ok locals s, .ok locals' t => locals = locals' ∧ s.backend.issued = t.backend.targets.size
  | .error d s, .error d' t => d = d' ∧ s.backend.issued = t.backend.targets.size
  | _, _ => False

variable (ctx : BodyContext) (params : List Param) (opening stop : Nat) (tokens : List Token) (names : Names)

/-- A body that is only checked ends as it does when it is compiled. -/
theorem sameEnd_compile : SameEnd (compile ctx params opening stop tokens (start names ⟨0⟩))
    (compile ctx params opening stop tokens (start names .empty)) := by
  have hcounted : compileTree ctx params opening stop tokens (start names (⟨0⟩ : LabelCount)) = _ :=
    compileTree_counted
  cases hx : compile ctx params opening stop tokens (start names (⟨0⟩ : LabelCount)) with
  | ok locals s =>
    obtain ⟨t, ht, hst⟩ := compile_ok labelCount_reliable hx
    cases hy : compile ctx params opening stop tokens (start names Assembly.empty) with
    | ok locals' s' =>
      obtain ⟨t', ht', hst'⟩ := compile_ok assembly_reliable hy
      rw [ht'] at hcounted
      cases ht.symm.trans hcounted
      exact ⟨rfl, by rw [BodyState.backend_eq_of_undated hst, BodyState.backend_eq_of_undated hst']; rfl⟩
    | error d' s' =>
      obtain ⟨t', ht', -⟩ := compile_error assembly_reliable hy
      rw [ht'] at hcounted
      cases ht.symm.trans hcounted
  | error d s =>
    obtain ⟨t, ht, hissued, -⟩ := compile_error labelCount_reliable hx
    cases hy : compile ctx params opening stop tokens (start names Assembly.empty) with
    | ok locals' s' =>
      obtain ⟨t', ht', -⟩ := compile_ok assembly_reliable hy
      rw [ht'] at hcounted
      cases ht.symm.trans hcounted
    | error d' s' =>
      obtain ⟨t', ht', hissued', -⟩ := compile_error assembly_reliable hy
      rw [ht'] at hcounted
      cases ht.symm.trans hcounted
      exact ⟨rfl, hissued.trans hissued'.symm⟩

end Body

namespace Script

theorem bodyCode_nothing (ctx : BodyContext) (names : Names) (params : List Param) (body : Block) :
    bodyCode .nothing ctx names params body = (bodyCode .chunks ctx names params body).map fun _ => () := by
  refine bodyCode_carried Body.assembly_reliable Body.labelCount_reliable Assembly.counted_respects
    Generator.nothing_start (.refl ctx) fun locals s h => ?_
  -- what only compiling does is to finish the code, and that succeeds
  obtain ⟨-, c, hc, -⟩ := finish_of_body (Vocabulary.everything_covers _ _) (Vocabulary.everything_admits _) h
  have hfinish : Generator.chunks.finish locals s.backend = .ok c := hc
  rw [hfinish]
  rfl

theorem globalSlot_nothing (r : Registry) (v : Visibility) (names : Names) (d : GlobalDecl) (slot : Nat) :
    globalSlot .nothing ⟨r, v, names⟩ d slot =
      (globalSlot .chunks ⟨r, v, names⟩ d slot).map fun g => ⟨g.name, g.ty, ()⟩ := by
  refine globalSlot_carried (k := fun _ => ()) Assembly.counted_respects Generator.nothing_start
    (fun _ => .refl _)
    fun init code hi hc => ?_
  have hcovers := Vocabulary.everything_covers r v
  have hinit := (initializer?_yields ⟨r, v, names.beginBody.showGlobals slot⟩ hcovers
    (Vocabulary.everything_admits d.init)).of_ok hi
  have hcode := (Expr.initializerCode_yields hcovers hinit d.ty).of_ok hc
  obtain ⟨c, hend, -⟩ := finish_of_straight hcode d.line
  have hfinish :
      Generator.chunks.finish [] (Backend.writeAll (Backend.atLine Generator.chunks.start d.line) code) =
      .ok c := hend
  rw [hfinish]
  rfl

theorem agrees_nothing (r : Registry) (v : Visibility) :
    Agrees (fun _ : Chunk => ()) .chunks .nothing r r v where
  problems _ _ := rfl
  globalSlot := globalSlot_nothing r v
  bodyCode kind := bodyCode_nothing ⟨r, v, kind⟩

/-- Checking is compiling without the program. -/
theorem check_eq_map_compile (registry : Registry) (options : CompileOptions) (replacements : Replacements)
    (source : String) : check registry options replacements source =
      (compile registry options replacements source).map fun _ => () := by
  have hwork := work_carries (k := fun _ : Chunk => ()) options replacements source rfl
    fun ds _ => agrees_nothing registry (Directive.applyAll options.visibility ds)
  unfold check
  rw [Session.outcome_carries hwork]
  change Except.map _ (Except.map _ (compile registry options replacements source)) = _
  cases compile registry options replacements source <;> rfl

/-- Checking and compiling accept the same scripts and report the same problems otherwise.  A body ends
the same way in both, with as many labels issued. -/
theorem check_agrees_with_compile (registry : Registry) (options : CompileOptions)
    (replacements : Replacements) (source : String) :
    (check registry options replacements source = .ok () ↔
        ∃ p, compile registry options replacements source = .ok p) ∧
      (∀ ds, check registry options replacements source = .error ds ↔
        compile registry options replacements source = .error ds) ∧
      (∀ ds, compile registry options replacements source = .error ds → ds ≠ []) ∧
      ∀ (ctx : BodyContext) (names : Names) (params : List Param) (opening stop : Nat) (tokens : List Token),
        Body.SameEnd (Body.compile ctx params opening stop tokens (Body.start names ⟨0⟩))
          (Body.compile ctx params opening stop tokens (Body.start names .empty)) := by
  refine ⟨?_, ?_, fun ds h => (compile_reports h).1, fun ctx names params opening stop tokens =>
    Body.sameEnd_compile ctx params opening stop tokens names⟩
  · rw [check_eq_map_compile, map_ok]
    exact exists_congr fun p => and_iff_left rfl
  · intro ds
    rw [check_eq_map_compile, map_error]

/-- No part of a script makes the compiler report a defect of its own, whatever its report has room for.
A body that is worked through has all its labels bound, and at no point of the work on it is there a
frame missing, or without its labels, or without its scope. -/
theorem no_defect_reported (registry : Registry) (options : CompileOptions) (replacements : Replacements)
    (source : String) :
    (∀ ds, compile registry options replacements source = .error ds ∨
        check registry options replacements source = .error ds → ∀ d ∈ ds, d.cause.kind ≠ .internal) ∧
      (∀ (env : Env) (decl : GlobalDecl) (slot : Nat) (d : Diagnostic),
        globalSlot .chunks env decl slot = .error d ∨ globalSlot .nothing env decl slot = .error d →
          d.cause.kind ≠ .internal) ∧
      (∀ (ctx : BodyContext) (names : Names) (params : List Param) (body : Block) (d : Diagnostic),
        bodyCode .chunks ctx names params body = .error d ∨
          bodyCode .nothing ctx names params body = .error d →
          d.cause.kind ≠ .internal) ∧
      ∀ (ctx : BodyContext) (names : Names) (params : List Param) (opening stop : Nat) (tokens : List Token),
        (∀ locals s, Body.compile ctx params opening stop tokens (Body.start names Assembly.empty) =
          .ok locals s →
          (∀ l r, s.book.records.get? l = some r → r.markedAt ≠ none) ∧ ∃ c,
            s.backend.finish locals = .ok c) ∧
        (∀ c c' : BodyConfig Assembly, c.Opens params opening tokens names .empty →
          Relation.ReflTransGen (BodyConfig.Advances ctx ⟨lastLine stop tokens, stop⟩) c c' →
            c'.Intact ctx ⟨lastLine stop tokens, stop⟩) ∧
        ∀ c c' : BodyConfig LabelCount, c.Opens params opening tokens names ⟨0⟩ →
          Relation.ReflTransGen (BodyConfig.Advances ctx ⟨lastLine stop tokens, stop⟩) c c' →
            c'.Intact ctx ⟨lastLine stop tokens, stop⟩ := by
  refine ⟨?_, ?_, ?_, ?_⟩
  · rintro ds (h | h)
    · exact (compile_reports h).2
    · rw [check_eq_map_compile] at h
      exact (compile_reports (map_error.mp h)).2
  · intro env decl slot d h
    have hyields := globalSlot_yields (Vocabulary.everything_covers env.registry env.visibility)
      (Vocabulary.everything_admits decl.init) slot
    rcases h with h | h
    · exact hyields.of_error h
    · rw [globalSlot_nothing] at h
      exact hyields.of_error (map_error.mp h)
  · intro ctx names params body d h
    have hyields : Yields (bodyCode .chunks ctx names params body) (Chunk.Within .everything) :=
      bodyCode_yields (Vocabulary.everything_covers _ _) (Vocabulary.everything_admits _)
    rcases h with h | h
    · exact hyields.of_error h
    · rw [bodyCode_nothing] at h
      exact hyields.of_error (map_error.mp h)
  · intro ctx names params opening stop tokens
    refine ⟨fun locals s h => ?_, fun c c' hc => hc.intact Body.assembly_reliable,
      fun c c' hc => hc.intact Body.labelCount_reliable⟩
    -- the tree leaves the same code and binds the same labels, on other lines maybe
    obtain ⟨t, ht, hst⟩ := Body.compile_ok Body.assembly_reliable h
    obtain ⟨hmarked, c, hc, -⟩ :=
      finish_of_body (Vocabulary.everything_covers _ _) (Vocabulary.everything_admits _) ht
    refine ⟨fun l r => LabelBook.marked_of_unlined (BodyState.book_eq_of_undated hst) hmarked, c, ?_⟩
    rw [BodyState.backend_eq_of_undated hst]
    exact hc

end Script

end WorldScript
