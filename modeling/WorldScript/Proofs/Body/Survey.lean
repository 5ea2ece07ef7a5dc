import WorldScript.Proofs.Body.Agreement
import WorldScript.Proofs.Body.Echo

/-! # Surveys of bodies

The work on a body is done a second time with a note of each jump and each label: how many instructions are
written when its statement comes.  The notes change nothing of the work.  From statement to statement, the
code at the place of a jump is a jump for the label of its name, and a label is bound at its own place.
-/

namespace WorldScript

structure Mark where
  site : Site
  position : Nat
deriving DecidableEq

structure Survey where
  body : BodyState Assembly
  marks : List Mark

abbrev Surveying := EStateM Diagnostic Survey

namespace Survey

open BodyM

variable {α β γ δ : Type} {x : BodyM Assembly α} {t : BodyState Assembly}

def sites (s : Survey) : List Site := s.marks.map Mark.site

def quietly (x : BodyM Assembly α) : Surveying α := fun s =>
  match x s.body with
  | .ok a t => .ok a ⟨t, s.marks⟩
  | .error d t => .error d ⟨t, s.marks⟩

def note (sites : List Site) : Surveying Unit :=
  modify fun s => { s with marks := s.marks ++ sites.map fun site => ⟨site, s.body.position⟩ }

def inScope (work : Surveying Unit) : Surveying Unit := do
  quietly (changeNames Names.openScope)
  work
  quietly (changeNames Names.closeScope)

mutual

def statement (ctx : BodyContext) (loop : Option LoopLabels) : Stmt → Surveying Unit
  | .block body => inScope (statements ctx loop body)
  | .expr term line => do
    note term.sites
    quietly (Body.statement ctx loop (.expr term line))
  | .jump name line => do
    note [.jump name]
    quietly (Body.statement ctx loop (.jump name line))
  | .branch term body rest line => do
    quietly (atLine line)
    let otherwise ← quietly (Body.armCondition ctx .ifArm term line)
    inScope (statements ctx loop body)
    conditionalTail ctx loop none otherwise line rest
  | .whileLoop term body line after => do
    quietly (atLine line)
    let again ← quietly (newLabel .loopContinue Construct.whileLoop.text line)
    let stop ← quietly (newLabel .loopEnd Construct.whileLoop.text line)
    quietly (mark again line)
    quietly (Body.condition ctx term line)
    quietly (write [.jumpIfFalse stop])
    inScope (statements ctx (some ⟨again, stop⟩) body)
    quietly (atLine after)
    quietly (write [.jump again])
    quietly (mark stop after)
  | .forLoop init test step body line after => do
    quietly (atLine line)
    quietly (Body.effects ctx init)
    let top ← quietly (newLabel .loopTop Construct.forLoop.text line)
    let again ← quietly (newLabel .loopContinue Construct.forLoop.text line)
    let stop ← quietly (newLabel .loopEnd Construct.forLoop.text line)
    quietly (mark top line)
    match test with
    | some term =>
      quietly (Body.condition ctx term line)
      quietly (write [.jumpIfFalse stop])
    | none => pure ()
    inScope (statements ctx (some ⟨again, stop⟩) body)
    quietly (atLine after)
    quietly (mark again after)
    quietly (Body.effects ctx step)
    quietly (write [.jump top])
    quietly (mark stop after)
  | .doLoop body term line test => do
    quietly (atLine line)
    let top ← quietly (newLabel .loopTop Construct.doLoop.text line)
    let again ← quietly (newLabel .loopContinue Construct.doLoop.text line)
    let stop ← quietly (newLabel .loopEnd Construct.doLoop.text line)
    quietly (mark top line)
    inScope (statements ctx (some ⟨again, stop⟩) body)
    quietly (atLine test)
    quietly (mark again test)
    quietly (Body.condition ctx term test)
    quietly (write [.jumpIfFalse stop, .jump top])
    quietly (mark stop test)
  | s => quietly (Body.statement ctx loop s)
termination_by structural s => s

def statements (ctx : BodyContext) (loop : Option LoopLabels) : List Stmt → Surveying Unit
  | [] => pure ()
  | s :: rest => do
    statement ctx loop s
    statements ctx loop rest
termination_by structural ss => ss

def conditionalTail (ctx : BodyContext) (loop : Option LoopLabels) (meeting : Option Label)
    (otherwise : Label) (start : Nat) : Tail → Surveying Unit
  | .done after => do
    quietly (atLine after)
    quietly (mark otherwise after)
    quietly (Body.markKnown meeting after)
  | .elseIf term body rest line => do
    let label ← quietly (Body.nextArm meeting otherwise start line)
    let next ← quietly (Body.armCondition ctx .elseIfArm term line)
    inScope (statements ctx loop body)
    conditionalTail ctx loop (some label) next line rest
  | .elseArm body line after => do
    let label ← quietly (Body.nextArm meeting otherwise start line)
    inScope (statements ctx loop body)
    quietly (atLine after)
    quietly (mark label after)
termination_by structural t => t

end

def compile (ctx : BodyContext) (params : List Param) (start stop : Nat) (tokens : List Token) :
    Surveying (List Param) := do
  quietly (changeNames fun n => n.beginBody.openScope)
  quietly (Body.declareParams start params)
  statements ctx none (Stmt.ofTokens start stop tokens)
  quietly (Body.finish ctx stop)
  return (← get).body.names.locals

theorem quietly_ok {s : Survey} {a : α} (h : x s.body = .ok a t) : quietly x s = .ok a ⟨t, s.marks⟩ := by
  simp only [quietly, h]

theorem quietly_error {s : Survey} {d : Diagnostic} (h : x s.body = .error d t) :
    quietly x s = .error d ⟨t, s.marks⟩ := by
  simp only [quietly, h]

theorem note_nil (x : Surveying α) : (note [] >>= fun _ => x) = x := by
  funext s
  change x ⟨s.body, s.marks ++ []⟩ = x s
  rw [List.append_nil]

theorem run_note_ok {site : Site} {u : Survey} {a : α} (h : x u.body = .ok a t) :
    (note [site] >>= fun _ => quietly x) u = .ok a ⟨t, u.marks ++ [⟨site, u.body.position⟩]⟩ := by
  change quietly x ⟨u.body, u.marks ++ [⟨site, u.body.position⟩]⟩ = _
  exact quietly_ok h

theorem run_note_error {site : Site} {u : Survey} {d : Diagnostic} (h : x u.body = .error d t) :
    (note [site] >>= fun _ => quietly x) u = .error d ⟨t, u.marks ++ [⟨site, u.body.position⟩]⟩ := by
  change quietly x ⟨u.body, u.marks ++ [⟨site, u.body.position⟩]⟩ = _
  exact quietly_error h

variable {ctx : BodyContext}

theorem quietly_carries (x : BodyM Assembly α) : Carries Survey.body id (quietly x) x := by
  intro s
  unfold quietly
  cases x s.body with
  | ok a t => rfl
  | error d t => rfl

theorem note_carries {sites : List Site} {x : Surveying α} {y : BodyM Assembly α}
    (h : Carries Survey.body id x y) : Carries Survey.body id (note sites >>= fun _ => x) y :=
  fun s => h ⟨s.body, s.marks ++ sites.map fun site => ⟨site, s.body.position⟩⟩

theorem inScope_carries {x : Surveying Unit} {y : BodyM Assembly Unit} (h : Carries Survey.body id x y) :
    Carries Survey.body id (inScope x) (Body.inScope y) :=
  .bind (quietly_carries _) fun _ => .bind h fun _ => quietly_carries _

mutual

/-- The notes change nothing of the work on a statement. -/
theorem statement_carries (loop : Option LoopLabels) (s : Stmt) :
    Carries Survey.body id (statement ctx loop s) (Body.statement ctx loop s) := by
  cases s with
  | empty | declare | ret | changeState | breakLoop | continueLoop | broken => exact quietly_carries _
  | expr term line => exact note_carries (quietly_carries _)
  | jump name line => exact note_carries (quietly_carries _)
  | block body => exact inScope_carries (statements_carries loop body)
  | branch term body rest line =>
    refine .bind (quietly_carries _) fun _ => .bind (quietly_carries _) fun otherwise => ?_
    refine .bind (inScope_carries (statements_carries loop body)) fun _ => ?_
    exact conditionalTail_carries loop none otherwise line rest
  | whileLoop term body line after =>
    refine .bind (quietly_carries _) fun _ => .bind (quietly_carries _) fun again => ?_
    refine .bind (quietly_carries _) fun stop => .bind (quietly_carries _) fun _ => ?_
    refine .bind (quietly_carries _) fun _ => .bind (quietly_carries _) fun _ => ?_
    refine .bind (inScope_carries (statements_carries (some ⟨again, stop⟩) body)) fun _ => ?_
    refine .bind (quietly_carries _) fun _ => .bind (quietly_carries _) fun _ => ?_
    exact quietly_carries _
  | forLoop init test step body line after =>
    refine .bind (quietly_carries _) fun _ => .bind (quietly_carries _) fun _ => ?_
    refine .bind (quietly_carries _) fun top => .bind (quietly_carries _) fun again => ?_
    refine .bind (quietly_carries _) fun stop => .bind (quietly_carries _) fun _ => ?_
    have hturn : Carries Survey.body id
        (do
          inScope (statements ctx (some ⟨again, stop⟩) body)
          quietly (atLine after)
          quietly (mark again after)
          quietly (Body.effects ctx step)
          quietly (write [.jump top])
          quietly (mark stop after))
        (do
          Body.inScope (Body.statements ctx (some ⟨again, stop⟩) body)
          atLine after
          mark again after
          Body.effects ctx step
          write [.jump top]
          mark stop after) := by
      refine .bind (inScope_carries (statements_carries (some ⟨again, stop⟩) body)) fun _ => ?_
      refine .bind (quietly_carries _) fun _ => .bind (quietly_carries _) fun _ => ?_
      refine .bind (quietly_carries _) fun _ => .bind (quietly_carries _) fun _ => ?_
      exact quietly_carries _
    cases test with
    | none => exact hturn
    | some term => exact .bind (quietly_carries _) fun _ => .bind (quietly_carries _) fun _ => hturn
  | doLoop body term line test =>
    refine .bind (quietly_carries _) fun _ => .bind (quietly_carries _) fun top => ?_
    refine .bind (quietly_carries _) fun again => .bind (quietly_carries _) fun stop => ?_
    refine .bind (quietly_carries _) fun _ => ?_
    refine .bind (inScope_carries (statements_carries (some ⟨again, stop⟩) body)) fun _ => ?_
    refine .bind (quietly_carries _) fun _ => .bind (quietly_carries _) fun _ => ?_
    refine .bind (quietly_carries _) fun _ => .bind (quietly_carries _) fun _ => ?_
    exact quietly_carries _
termination_by structural s

theorem statements_carries (loop : Option LoopLabels) (body : List Stmt) :
    Carries Survey.body id (statements ctx loop body) (Body.statements ctx loop body) := by
  cases body with
  | nil => exact .pure _
  | cons s rest => exact .bind (statement_carries loop s) fun _ => statements_carries loop rest
termination_by structural body

theorem conditionalTail_carries (loop : Option LoopLabels) (meeting : Option Label) (otherwise : Label)
    (start : Nat) (tail : Tail) :
    Carries Survey.body id (conditionalTail ctx loop meeting otherwise start tail)
      (Body.conditionalTail ctx loop meeting otherwise start tail) := by
  cases tail with
  | done after =>
    refine .bind (quietly_carries _) fun _ => .bind (quietly_carries _) fun _ => ?_
    exact quietly_carries _
  | elseIf term body rest line =>
    refine .bind (quietly_carries _) fun label => .bind (quietly_carries _) fun next => ?_
    refine .bind (inScope_carries (statements_carries loop body)) fun _ => ?_
    exact conditionalTail_carries loop (some label) next line rest
  | elseArm body line after =>
    refine .bind (quietly_carries _) fun label => ?_
    refine .bind (inScope_carries (statements_carries loop body)) fun _ => ?_
    exact .bind (quietly_carries _) fun _ => quietly_carries _
termination_by structural tail

end

theorem compile_carries (params : List Param) (start stop : Nat) (tokens : List Token) :
    Carries Survey.body id (compile ctx params start stop tokens)
      (Body.compileTree ctx params start stop tokens) := by
  refine .bind (quietly_carries _) fun _ => .bind (quietly_carries _) fun _ => ?_
  refine .bind (statements_carries none _) fun _ => .bind (quietly_carries _) fun _ => ?_
  exact .bind .get fun s => .pure _

end Survey

def Script.surveyed (ctx : BodyContext) (names : Names) (params : List Param) (body : Block) :
    Except Diagnostic Chunk × List Mark :=
  let work := Survey.compile ctx params body.openLine body.closeLine body.tokens
  match work.run ⟨Body.start names .empty, []⟩ with
  | .error d s => (.error d, s.marks)
  | .ok locals s =>
    ((s.body.backend.finish locals).mapError fun label =>
      .defect body.closeLine (.unboundLabel label), s.marks)

/-- A survey comes with the code of its body. -/
theorem Script.surveyed_fst (ctx : BodyContext) (names : Names) (params : List Param) (body : Block) :
    (surveyed ctx names params body).1 = bodyCode .chunks ctx names params body := by
  have hbody : Body.compileTree ctx params body.openLine body.closeLine body.tokens
      (Body.start names Assembly.empty) = _ :=
    Survey.compile_carries params body.openLine body.closeLine body.tokens ⟨Body.start names .empty, []⟩
  unfold surveyed
  dsimp only [EStateM.run]
  cases hrun : Survey.compile ctx params body.openLine body.closeLine body.tokens
    ⟨Body.start names .empty, []⟩ with
  | error d s =>
    rw [hrun] at hbody
    exact (bodyCode_of_error (g := .chunks) Body.assembly_reliable hbody).symm
  | ok locals s =>
    rw [hrun] at hbody
    exact (bodyCode_of_ok (g := .chunks) Body.assembly_reliable hbody).symm

end WorldScript
