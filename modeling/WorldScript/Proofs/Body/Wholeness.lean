import WorldScript.Proofs.Body.Agreement
import WorldScript.Proofs.Expr.Resolution
import WorldScript.Proofs.Outcome
import WorldScript.Proofs.Stmt.Leaves
import WorldScript.Script.Declaration

/-! # Accepted bodies are whole

Work on a body gets to its end only if every term of every statement stands for an expression.  So no
statement and no term of a body that is accepted is broken off, and its tokens spell the statements that
are read.
-/

namespace WorldScript

theorem Term.not_isBroken_of_whole {t : Term} (h : t.All .whole) : t.isBroken = false := by
  cases t with
  | broken => exact h.elim
  | literal | name | call | list | angle | cast | unary | step | member | binary | assign | label
  | brokenAfter =>
    rfl

mutual

theorem Stmt.unbroken_of_whole (s : Stmt) (h : s.All .whole) : s.unbroken = true := by
  cases s with
  | broken problem => exact h.elim
  | empty | declare | expr | ret | changeState | jump | breakLoop | continueLoop => rfl
  | block body => exact Stmt.allUnbroken_of_whole body h
  | branch test body tail line =>
    obtain ⟨htest, hbody, htail⟩ := h
    simp [Stmt.unbroken, Term.not_isBroken_of_whole htest, Stmt.allUnbroken_of_whole body hbody,
      Tail.unbroken_of_whole tail htail]
  | whileLoop test body line after =>
    obtain ⟨htest, hbody⟩ := h
    simp [Stmt.unbroken, Term.not_isBroken_of_whole htest, Stmt.allUnbroken_of_whole body hbody]
  | forLoop init test step body line after =>
    obtain ⟨-, -, -, hbody⟩ := h
    exact Stmt.allUnbroken_of_whole body hbody
  | doLoop body test line last =>
    obtain ⟨hbody, htest⟩ := h
    simp [Stmt.unbroken, Term.not_isBroken_of_whole htest, Stmt.allUnbroken_of_whole body hbody]

theorem Stmt.allUnbroken_of_whole (body : List Stmt) (h : Stmt.AllOf .whole body) :
    Stmt.allUnbroken body = true := by
  cases body with
  | nil => rfl
  | cons s rest =>
    obtain ⟨hs, hrest⟩ := h
    simp [Stmt.allUnbroken, Stmt.unbroken_of_whole s hs, Stmt.allUnbroken_of_whole rest hrest]

theorem Tail.unbroken_of_whole (tail : Tail) (h : tail.All .whole) : tail.unbroken = true := by
  cases tail with
  | done after => rfl
  | elseIf test body rest line =>
    obtain ⟨htest, hbody, hrest⟩ := h
    simp [Tail.unbroken, Term.not_isBroken_of_whole htest, Stmt.allUnbroken_of_whole body hbody,
      Tail.unbroken_of_whole rest hrest]
  | elseArm body line after => exact Stmt.allUnbroken_of_whole body h

end

namespace Body

open BodyM

variable {σ α β : Type}

def Needs (P : Prop) (work : BodyM σ α) : Prop := ∀ s a t, work s = .ok a t → P

namespace Needs

variable {P Q : Prop} {x : BodyM σ α} {f : α → BodyM σ β}

theorem of_true (h : P) : Needs P x := fun _ _ _ _ => h

theorem throw (d : Diagnostic) : Needs P (throw d : BodyM σ α) := by
  intro s a t h
  cases h

theorem first (h : Needs P x) : Needs P (x >>= f) := by
  intro s b t hrun
  obtain ⟨a, u, hx, -⟩ := run_bind_ok hrun
  exact h s a u hx

theorem later (h : ∀ a, Needs P (f a)) : Needs P (x >>= f) := by
  intro s b t hrun
  obtain ⟨a, u, -, hf⟩ := run_bind_ok hrun
  exact h a u b t hf

theorem both (hx : Needs P x) (hf : ∀ a, Needs Q (f a)) : Needs (P ∧ Q) (x >>= f) := by
  intro s b t hrun
  exact ⟨hx.first s b t hrun, later hf s b t hrun⟩

end Needs

theorem lift_needs {P : Prop} {r : Except Diagnostic α} (h : ∀ a, r = .ok a → P) :
    Needs P (lift r : BodyM σ α) := by
  cases r with
  | ok a => exact .of_true (h a rfl)
  | error d => exact .throw d

theorem elaborate_needs (ctx : BodyContext) (term : Term) :
    Needs (term.All .whole) (elaborate ctx term : BodyM σ Expr) :=
  .later fun _ => lift_needs fun _ h => Env.all_whole_of_resolves term ((Env.elaborate_ok_iff term).mp h)

theorem value_needs (ctx : BodyContext) (term : Term) (line : Nat) :
    Needs (term.All .whole) (value ctx term line : BodyM σ (Expr × Ty)) :=
  (elaborate_needs ctx term).first

theorem inScope_needs {P : Prop} {work : BodyM σ Unit} (h : Needs P work) : Needs P (inScope work) :=
  .later fun _ => h.first

variable [Backend σ]

theorem condition_needs (ctx : BodyContext) (term : Term) (line : Nat) :
    Needs (term.All .whole) (condition ctx term line : BodyM σ Unit) :=
  (value_needs ctx term line).first

theorem effects_needs (ctx : BodyContext) (terms : List Term) :
    Needs (Term.AllOf .whole terms) (effects ctx terms : BodyM σ Unit) := by
  refine .later fun env => .first (lift_needs fun _ h => ?_)
  exact Env.allOf_whole_of_resolves terms ((Env.elaborateAll_ok_iff terms).mp h)

theorem declaration_needs (ctx : BodyContext) (ty : Ty) (name : String) (init : Option Term) (line : Nat) :
    Needs (∀ t ∈ init, t.All .whole) (declaration ctx ty name init line : BodyM σ Unit) := by
  cases init with
  | none => exact .of_true (by simp)
  | some term =>
    intro s a t h
    simpa using (value_needs ctx term line).first s a t h

theorem returning_needs (ctx : BodyContext) (result : Option Term) (line : Nat) :
    Needs (∀ t ∈ result, t.All .whole) (returning ctx result line : BodyM σ Unit) := by
  cases result with
  | none => exact .of_true (by simp)
  | some term =>
    unfold returning
    cases ctx.kind.returns with
    | some ty =>
      intro s a t h
      simpa using (value_needs ctx term line).first s a t h
    | none => cases ctx.kind <;> exact .throw _

theorem armCondition_needs (ctx : BodyContext) (construct : Construct) (term : Term) (line : Nat) :
    Needs (term.All .whole) (armCondition ctx construct term line : BodyM σ Label) :=
  (condition_needs ctx term line).first

/-- The body and the step of a counted loop stand behind its test, which may be missing. -/
theorem forLoop_needs (ctx : BodyContext) (loop : Option LoopLabels) (init : List Term) (test : Option Term)
    (step : List Term) {body : List Stmt} (line after : Nat)
    (hbody : ∀ labels, Needs (Stmt.AllOf .whole body) (statements ctx (some labels) body : BodyM σ Unit)) :
    Needs ((Stmt.forLoop init test step body line after).All .whole)
      (statement ctx loop (.forLoop init test step body line after) : BodyM σ Unit) := by
  refine .later fun _ => (effects_needs ctx init).both fun _ => ?_
  refine .later fun top => .later fun again => .later fun stop => .later fun _ => ?_
  have hturn : Needs (Term.AllOf .whole step ∧ Stmt.AllOf .whole body) (do
      inScope (statements ctx (some ⟨again, stop⟩) body)
      atLine after
      mark again after
      effects ctx step
      write [.jump top]
      mark stop after : BodyM σ Unit) := by
    intro s a t h
    have hstep :=
      Needs.later (fun _ => .later fun _ => .later fun _ => (effects_needs ctx step).first) s a t h
    exact ⟨hstep, (inScope_needs (hbody ⟨again, stop⟩)).first s a t h⟩
  cases test with
  | none =>
    intro s a t h
    exact ⟨by simp, hturn s a t h⟩
  | some term =>
    intro s a t h
    have htest := (condition_needs ctx term line).first s a t h
    exact ⟨by simpa using htest, Needs.later (fun _ => .later fun _ => hturn) s a t h⟩

mutual

/-- The work on a statement comes to its end only if its terms are whole. -/
theorem statement_needs (ctx : BodyContext) (loop : Option LoopLabels) (s : Stmt) :
    Needs (s.All .whole) (statement ctx loop s : BodyM σ Unit) := by
  cases s with
  | empty | changeState | jump | breakLoop | continueLoop => exact .of_true trivial
  | broken problem => exact .throw problem
  | block body => exact inScope_needs (statements_needs ctx loop body)
  | declare ty name init line => exact .later fun _ => declaration_needs ctx ty name init line
  | expr term line => exact .later fun _ => (elaborate_needs ctx term).first
  | ret result line => exact .later fun _ => returning_needs ctx result line
  | branch term body tail line =>
    refine .later fun _ => (armCondition_needs ctx .ifArm term line).both fun _ => ?_
    exact (inScope_needs (statements_needs ctx loop body)).both fun _ =>
      conditionalTail_needs ctx loop none _ line tail
  | whileLoop term body line after =>
    refine .later fun _ => .later fun again => .later fun stop => .later fun _ => ?_
    refine (condition_needs ctx term line).both fun _ => .later fun _ => .first ?_
    exact inScope_needs (statements_needs ctx (some ⟨again, stop⟩) body)
  | forLoop init test step body line after =>
    exact forLoop_needs ctx loop init test step line after fun labels =>
      statements_needs ctx (some labels) body
  | doLoop body term line test =>
    refine .later fun _ => .later fun top => .later fun again => .later fun stop => .later fun _ => ?_
    refine (inScope_needs (statements_needs ctx (some ⟨again, stop⟩) body)).both fun _ => ?_
    exact .later fun _ => .later fun _ => (condition_needs ctx term test).first

theorem statements_needs (ctx : BodyContext) (loop : Option LoopLabels) (body : List Stmt) :
    Needs (Stmt.AllOf .whole body) (statements ctx loop body : BodyM σ Unit) := by
  cases body with
  | nil => exact .of_true trivial
  | cons s rest => exact (statement_needs ctx loop s).both fun _ => statements_needs ctx loop rest

theorem conditionalTail_needs (ctx : BodyContext) (loop : Option LoopLabels) (meeting : Option Label)
    (otherwise : Label) (start : Nat) (tail : Tail) :
    Needs (tail.All .whole) (conditionalTail ctx loop meeting otherwise start tail : BodyM σ Unit) := by
  cases tail with
  | done after => exact .of_true trivial
  | elseIf term body rest line =>
    refine .later fun label => (armCondition_needs ctx .elseIfArm term line).both fun next => ?_
    refine (inScope_needs (statements_needs ctx loop body)).both fun _ => ?_
    exact conditionalTail_needs ctx loop (some label) next line rest
  | elseArm body line after => exact .later fun _ => (inScope_needs (statements_needs ctx loop body)).first

end

theorem compileTree_needs (ctx : BodyContext) (params : List Param) (start stop : Nat) (tokens : List Token) :
    Needs (Stmt.AllOf .whole (Stmt.ofTokens start stop tokens))
      (compileTree ctx params start stop tokens : BodyM σ (List Param)) :=
  .later fun _ => .later fun _ => (statements_needs ctx none _).first

end Body

/-- Some script can have this body: there are names and parameters with which work on it gets to its end. -/
def Block.Accepted (b : Block) : Prop :=
  ∃ (ctx : BodyContext) (names : Names) (params locals : List Param) (s : BodyState Assembly),
    Body.compile ctx params b.openLine b.closeLine b.tokens (Body.start names .empty) = .ok locals s

theorem Block.Accepted.of_bodyCode {ctx : BodyContext} {names : Names} {params : List Param} {b : Block}
    {c : Chunk} (h : Script.bodyCode .chunks ctx names params b = .ok c) : b.Accepted := by
  unfold Script.bodyCode EStateM.run at h
  cases hrun : Body.compile ctx params b.openLine b.closeLine b.tokens (Body.start names Assembly.empty) with
  | ok locals s => exact ⟨ctx, names, params, locals, s, hrun⟩
  | error d s =>
    dsimp only [Generator.chunks] at h
    rw [hrun] at h
    cases h

/-- The tokens of an accepted body spell statements with whole terms. -/
theorem Block.Accepted.spelled {b : Block} (h : b.Accepted) :
    ∃ body, Stmt.AllOf .whole body ∧ Stmt.Spelled b.closeLine b.tokens body := by
  obtain ⟨ctx, names, params, locals, s, hrun⟩ := h
  obtain ⟨t, htree, -⟩ := Body.compile_ok Body.assembly_reliable hrun
  have hwhole := Body.compileTree_needs ctx params b.openLine b.closeLine b.tokens _ _ _ htree
  exact ⟨_, hwhole, Stmt.ofTokens_spelled (Stmt.allUnbroken_of_whole _ hwhole)⟩

end WorldScript
