import WorldScript.Proofs.Body.Agreement
import WorldScript.Proofs.Script.Reading

/-! # Words of programs

Every body of a script becomes a chunk that keeps to a vocabulary, unless there is something wrong with
the script: no label is left over that a branch needs.
-/

namespace WorldScript

def Chunk.Within (V : Vocabulary) (c : Chunk) : Prop := ∀ e ∈ c.entries.toList, e.instr.Within V

structure Program.Within (V : Vocabulary) (p : Program Chunk) : Prop where
  globals : ∀ g ∈ p.globals, g.init.Within V
  functions : ∀ f ∈ p.functions, f.code.Within V
  handlers : ∀ s ∈ p.states, ∀ h ∈ s.handlers, h.code.Within V

namespace Script

variable {V : Vocabulary} {ctx : BodyContext} {names : Names} {params : List Param} {env : Env}

/-- A body that is worked through has all its labels bound, so that its code can be finished. -/
theorem finish_of_body (hV : V.Covers ctx.registry ctx.visibility) {locals : List Param}
    {opening stop : Nat} {tokens : List Token} {s : BodyState Assembly} (ht : V.leaves.Admits tokens)
    (h : Body.compileTree ctx params opening stop tokens (Body.start names .empty) = .ok locals s) :
    (∀ l r, s.book.records.get? l = some r → r.markedAt ≠ none) ∧
      ∃ c, s.backend.finish locals = .ok c ∧ c.Within V := by
  have hfinished : s.Finished V := (Body.compileTree_finishes hV ht names).of_ok rfl h
  exact ⟨hfinished.marked, Assembly.finish_within locals hfinished.bound⟩

theorem bodyCode_of_body {locals : List Param} {body : Block} {s : BodyState Assembly}
    (h : Body.compileTree ctx params body.openLine body.closeLine body.tokens (Body.start names .empty) =
      .ok locals s) :
    ∃ c, s.backend.finish locals = .ok c ∧ bodyCode .chunks ctx names params body = .ok c := by
  obtain ⟨-, c, hc, -⟩ := finish_of_body (Vocabulary.everything_covers _ _) (Vocabulary.everything_admits _) h
  refine ⟨c, hc, ?_⟩
  rw [bodyCode_of_ok Body.assembly_reliable h]
  change Except.mapError _ (s.backend.finish locals) = _
  rw [hc]
  rfl

theorem bodyCode_yields (hV : V.Covers ctx.registry ctx.visibility) {body : Block}
    (ht : V.leaves.Admits body.tokens) :
    Yields (bodyCode .chunks ctx names params body) (Chunk.Within V) := by
  cases h : Body.compileTree ctx params body.openLine body.closeLine body.tokens
      (Body.start names Assembly.empty) with
  | error d s =>
    rw [bodyCode_of_error Body.assembly_reliable h]
    exact (Body.compileTree_finishes hV ht names).of_error rfl h
  | ok locals s =>
    rw [bodyCode_of_ok Body.assembly_reliable h]
    obtain ⟨-, c, hc, hw⟩ := finish_of_body hV ht h
    change Yields ((s.backend.finish locals).mapError _) _
    rw [hc]
    exact hw

theorem initializer?_yields (env : Env) (hV : V.Covers env.registry env.visibility) {d : GlobalDecl}
    (ht : V.leaves.Admits d.init) : Yields (initializer? env d) fun init => ∀ e ∈ init, e.Within V := by
  unfold initializer?
  split
  · exact fun e he => by cases he
  · refine (Env.elaborate_yields hV _ (Term.ofTokens_all ht)).bind fun e he => ?_
    split
    · exact Diagnostic.semantic_blames _ _
    · split
      · rintro _ ⟨⟩
        exact Expr.convertedTo_within he d.ty
      · exact Diagnostic.semantic_blames _ _

/-- Code without labels can be finished. -/
theorem finish_of_straight {code : List (Instr Label)} (hc : StraightCode V code) (line : Nat) :
    ∃ c, (Backend.writeAll (Backend.atLine Assembly.empty line) code).finish [] = .ok c ∧ c.Within V := by
  refine Assembly.finish_within [] fun i hi => ?_
  rw [(Body.writeAll_drafts _ code).1] at hi
  replace hi : i ∈ code := by simpa [Backend.atLine, Assembly.atLine, Assembly.empty] using hi
  obtain ⟨hw, hn⟩ := hc i hi
  exact ⟨hw, by simp [hn]⟩

theorem globalSlot_yields (hV : V.Covers env.registry env.visibility) {d : GlobalDecl}
    (ht : V.leaves.Admits d.init) (slot : Nat) :
    Yields (globalSlot .chunks env d slot) fun g => g.init.Within V := by
  refine (initializer?_yields { env with names := env.names.beginBody.showGlobals slot } hV ht).bind ?_
  intro init hinit
  refine (Expr.initializerCode_yields hV hinit d.ty).bind fun code hcode => ?_
  obtain ⟨c, hc, hw⟩ := finish_of_straight hcode d.line
  have hfinish :
      Generator.chunks.finish [] (Backend.writeAll (Backend.atLine Generator.chunks.start d.line) code) =
      .ok c := hc
  dsimp only
  rw [hfinish]
  exact hw

theorem function_yields (hV : V.Covers env.registry env.visibility) {d : FunctionDecl}
    (ht : V.leaves.Admits d.body.tokens) : Yields (function .chunks env d) fun f => f.code.Within V :=
  (bodyCode_yields hV ht).map fun _ h => h

theorem handler_yields (hV : V.Covers env.registry env.visibility) {d : HandlerDecl}
    (ht : V.leaves.Admits d.body.tokens) : Yields (handler .chunks env d) fun h => h.code.Within V :=
  (bodyCode_yields hV ht).map fun _ h => h

end Script

end WorldScript
