import WorldScript.Body

/-! # Relations that the steps of a body respect

The code of a statement is put together from a few steps.  A relation between the works on two bodies that
each of these steps respects holds between the works on all their statements, so what one induction over the
statements shows is shown here once.
-/

namespace WorldScript.Body

open BodyM

variable {σ τ : Type} [Backend σ] [Backend τ]

/-- A property of work that the steps of all work on a body have, and that their sequence keeps. -/
structure Stepwise (P : {α : Type} → BodyM σ α → Prop) : Prop where
  pure {α : Type} (a : α) : P (pure a)
  throw {α : Type} (d : Diagnostic) : P (throw d : BodyM σ α)
  bind {α β : Type} {x : BodyM σ α} {f : α → BodyM σ β} : P x → (∀ a, P (f a)) → P (x >>= f)
  reads {α : Type} {f : BodyState σ → BodyM σ α} :
    (∀ s t, s.names = t.names → s.jumps = t.jumps → f s = f t) →
    (∀ s, P (f s)) → P (get >>= f)
  write (code : List (Instr Label)) : P (write code)
  newLabel (purpose : LabelPurpose) (construct : String) (line : Nat) : P (newLabel purpose construct line)
  mark (label : Label) (line : Nat) : P (mark label line)
  atLine (line : Nat) : P (atLine line)
  declare (name : String) (ty : Ty) (line : Nat) : P (declare name ty line)
  insertJump (name : String) (j : JumpLabel) : P (modify fun s => { s with jumps := s.jumps.insert name j })

namespace Stepwise

variable {P : {α : Type} → BodyM σ α → Prop} (h : Stepwise P) (ctx : BodyContext)

include h

theorem lift {α : Type} (r : Except Diagnostic α) : P (lift r) := by
  cases r with
  | ok a => exact h.pure a
  | error d => exact h.throw d

theorem env : P (env ctx) := h.reads (fun s t hn _ => by rw [hn]) fun _ => h.pure _

theorem elaborate (term : Term) : P (elaborate ctx term) := h.bind (h.env ctx) fun _ => h.lift _

theorem value (term : Term) (line : Nat) : P (value ctx term line) := by
  refine h.bind (h.elaborate ctx term) fun e => ?_
  cases e.ty with
  | some ty => exact h.pure _
  | none => exact h.throw _

/-- Code that was found is written. -/
theorem liftWrite (r : Except Diagnostic (List (Instr Label))) :
    P (do let code ← BodyM.lift r; BodyM.write code) :=
  h.bind (h.lift r) h.write

theorem condition (term : Term) (line : Nat) : P (condition ctx term line) :=
  h.bind (h.value ctx term line) fun _ => h.liftWrite _

theorem effectAll (es : List Expr) : P (effectAll es) := by
  induction es with
  | nil => exact h.pure _
  | cons e rest ih => exact h.bind (h.liftWrite _) fun _ => ih

theorem effects (terms : List Term) : P (effects ctx terms) :=
  h.bind (h.env ctx) fun _ => h.bind (h.lift _) h.effectAll

theorem armCondition (construct : Construct) (term : Term) (line : Nat) :
    P (armCondition ctx construct term line) := by
  refine h.bind (h.condition ctx term line) fun _ => h.bind (h.newLabel _ _ _) fun _ => ?_
  exact h.bind (h.write _) fun _ => h.pure _

theorem jumpLabel (name : String) (line : Nat) : P (jumpLabel name line) := by
  refine h.reads (fun s t _ hj => by rw [hj]) fun s => ?_
  split
  · exact h.pure _
  · exact h.bind (h.newLabel _ _ _) fun _ => h.bind (h.insertJump _ _) fun _ => h.pure _

theorem defineLabel (name : String) (line next : Nat) : P (defineLabel name line next) := by
  refine h.bind (h.jumpLabel name line) fun label => h.reads (fun s t _ hj => by rw [hj]) fun s => ?_
  split
  · split
    · exact h.bind (h.throw _) fun _ => h.mark label next
    · exact h.bind (h.insertJump _ _) fun _ => h.mark label next
  · exact h.mark label next

theorem declaration (ty : Ty) (name : String) (init : Option Term) (line : Nat) :
    P (declaration ctx ty name init line) := by
  have hstore : P (do let slot ← BodyM.declare name ty line; BodyM.write [.store (.loc slot)]) :=
    h.bind (h.declare name ty line) fun _ => h.write _
  cases init with
  | none => exact h.bind (h.write _) fun _ => hstore
  | some term =>
    refine h.bind (h.value ctx term line) fun r => ?_
    dsimp only
    split
    · exact h.bind (h.liftWrite _) fun _ => hstore
    · exact h.bind (h.throw _) fun _ => hstore

theorem expression (term : Term) (line next : Nat) : P (expression ctx term line next) := by
  refine h.bind (h.elaborate ctx term) fun e => ?_
  split
  · exact h.defineLabel _ line next
  · exact h.liftWrite _

theorem returning (result : Option Term) (line : Nat) : P (returning ctx result line) := by
  unfold Body.returning
  split
  · refine h.bind (h.value ctx _ line) fun r => ?_
    dsimp only
    split
    · exact h.bind (h.liftWrite _) fun _ => h.write _
    · exact h.throw _
  · exact h.throw _
  · split <;> exact h.throw _
  · exact h.write _

theorem stateChange (name : String) (line : Nat) : P (stateChange ctx name line) := by
  unfold Body.stateChange
  split
  · exact h.throw _
  · refine h.reads (fun s t hn _ => by rw [hn]) fun s => ?_
    split
    · exact h.write _
    · exact h.throw _

theorem declareParams (line : Nat) (params : List Param) : P (declareParams line params) := by
  induction params with
  | nil => exact h.pure _
  | cons p rest ih => exact h.bind (h.declare p.name p.ty line) fun _ => ih

theorem finish {stop : Nat}
    (hclose : P (do changeNames Names.closeScope; BodyM.lift ((← get).book.expectAllMarked stop))) :
    P (finish ctx stop) := by
  have hend (code : List (Instr Label)) : P (do
      BodyM.atLine stop
      BodyM.write code
      changeNames Names.closeScope
      BodyM.lift ((← get).book.expectAllMarked stop)) :=
    h.bind (h.atLine stop) fun _ => h.bind (h.write code) fun _ => hclose
  unfold Body.finish
  refine h.reads (fun s t _ hj => by rw [hj]) fun s => ?_
  cases ctx.kind.returns <;> cases s.jumps.entries.find? fun e => e.2.definedAt.isNone
  case none.some | some.some => exact h.bind (h.throw _) fun _ => hend _
  case none.none | some.none => exact hend _

end Stepwise

/-- The relation `R` goes through every step that the code of a statement is put together from.  Between a
condition and the jump that takes its value it need not hold. -/
structure Congruence (ctx other : BodyContext) (R : {α : Type} → BodyM σ α → BodyM τ α → Prop) : Prop where
  pure {α : Type} (a : α) : R (pure a) (pure a)
  bind {α β : Type} {x : BodyM σ α} {y : BodyM τ α} {f : α → BodyM σ β} {g : α → BodyM τ β} :
    R x y → (∀ a, R (f a) (g a)) → R (x >>= f) (y >>= g)
  throw (d : Diagnostic) : R (throw d : BodyM σ Unit) (throw d)
  inScope {work : BodyM σ Unit} {work' : BodyM τ Unit} : R work work' → R (inScope work) (inScope work')
  atLine (line : Nat) : R (atLine line) (atLine line)
  newLabel (purpose : LabelPurpose) (construct : String) (line : Nat) :
    R (newLabel purpose construct line) (newLabel purpose construct line)
  jumpLabel (name : String) (line : Nat) : R (jumpLabel name line) (jumpLabel name line)
  mark (label : Label) (line : Nat) : R (mark label line) (mark label line)
  jump (label : Label) : R (write [.jump label]) (write [.jump label])
  armCondition (construct : Construct) (term : Term) (line : Nat) :
    R (armCondition ctx construct term line) (armCondition other construct term line)
  loopCondition (term : Term) (line : Nat) (stop : Label) (top : Option Label) {rest : BodyM σ Unit}
    {rest' : BodyM τ Unit} : R rest rest' →
      R (do condition ctx term line; write (.jumpIfFalse stop :: (top.map .jump).toList); rest)
        (do condition other term line; write (.jumpIfFalse stop :: (top.map .jump).toList); rest')
  effects (terms : List Term) : R (effects ctx terms) (effects other terms)
  declaration (ty : Ty) (name : String) (init : Option Term) (line : Nat) :
    R (declaration ctx ty name init line) (declaration other ty name init line)
  expression (term : Term) (line : Nat) : R (expression ctx term line line) (expression other term line line)
  returning (result : Option Term) (line : Nat) : R (returning ctx result line) (returning other result line)
  stateChange (name : String) (line : Nat) : R (stateChange ctx name line) (stateChange other name line)

namespace Congruence

variable {ctx other : BodyContext} {R : {α : Type} → BodyM σ α → BodyM τ α → Prop}

theorem loopJump (h : Congruence ctx other R) (target : Option Label) (word : Keyword) (line : Nat) :
    R (loopJump target word line) (loopJump target word line) := by
  cases target with
  | some label => exact h.jump label
  | none => exact h.throw _

theorem markKnown (h : Congruence ctx other R) (label : Option Label) (line : Nat) :
    R (markKnown label line) (markKnown label line) := by
  cases label with
  | some l => exact h.mark l line
  | none => exact h.pure ()

theorem nextArm (h : Congruence ctx other R) (meeting : Option Label) (otherwise : Label) (start line : Nat) :
    R (nextArm meeting otherwise start line) (nextArm meeting otherwise start line) := by
  have hmeeting : R (meetingPoint meeting start) (meetingPoint meeting start) := by
    cases meeting with
    | some label => exact h.pure label
    | none => exact h.newLabel _ _ _
  refine h.bind (h.atLine line) fun _ => h.bind hmeeting fun label => ?_
  exact h.bind (h.jump label) fun _ => h.bind (h.mark otherwise line) fun _ => h.pure label

mutual

/-- The one induction over statements, for any relation that the steps respect. -/
theorem statement (h : Congruence ctx other R) (loop : Option LoopLabels) (stmt : Stmt) :
    R (statement ctx loop stmt) (statement other loop stmt) := by
  cases stmt with
  | empty => exact h.pure ()
  | block body => exact h.inScope (statements h loop body)
  | declare ty name init line => exact h.bind (h.atLine line) fun _ => h.declaration ty name init line
  | expr term line => exact h.bind (h.atLine line) fun _ => h.expression term line
  | ret result line => exact h.bind (h.atLine line) fun _ => h.returning result line
  | changeState name line => exact h.bind (h.atLine line) fun _ => h.stateChange name line
  | jump name line =>
    exact h.bind (h.atLine line) fun _ => h.bind (h.jumpLabel name line) fun label => h.jump label
  | breakLoop line => exact h.bind (h.atLine line) fun _ => h.loopJump _ _ line
  | continueLoop line => exact h.bind (h.atLine line) fun _ => h.loopJump _ _ line
  | branch term body rest line =>
    refine h.bind (h.atLine line) fun _ => h.bind (h.armCondition .ifArm term line) fun otherwise => ?_
    refine h.bind (h.inScope (statements h loop body)) fun _ => ?_
    exact conditionalTail h loop none otherwise line rest
  | whileLoop term body line after =>
    refine h.bind (h.atLine line) fun _ => h.bind (h.newLabel _ _ line) fun again => ?_
    refine h.bind (h.newLabel _ _ line) fun stop => h.bind (h.mark again line) fun _ => ?_
    refine h.loopCondition term line stop none ?_
    refine h.bind (h.inScope (statements h (some ⟨again, stop⟩) body)) fun _ => ?_
    exact h.bind (h.atLine after) fun _ => h.bind (h.jump again) fun _ => h.mark stop after
  | forLoop init test step body line after =>
    refine h.bind (h.atLine line) fun _ => h.bind (h.effects init) fun _ => ?_
    refine h.bind (h.newLabel _ _ line) fun top => h.bind (h.newLabel _ _ line) fun again => ?_
    refine h.bind (h.newLabel _ _ line) fun stop => h.bind (h.mark top line) fun _ => ?_
    -- what follows the test, whether there is one or not
    have hrest := h.bind (h.inScope (statements h (some ⟨again, stop⟩) body)) fun _ =>
      h.bind (h.atLine after) fun _ => h.bind (h.mark again after) fun _ =>
        h.bind (h.effects step) fun _ => h.bind (h.jump top) fun _ => h.mark stop after
    cases test with
    | none => exact hrest
    | some term => exact h.loopCondition term line stop none hrest
  | doLoop body term line test =>
    refine h.bind (h.atLine line) fun _ => h.bind (h.newLabel _ _ line) fun top => ?_
    refine h.bind (h.newLabel _ _ line) fun again => h.bind (h.newLabel _ _ line) fun stop => ?_
    refine h.bind (h.mark top line) fun _ => ?_
    refine h.bind (h.inScope (statements h (some ⟨again, stop⟩) body)) fun _ => ?_
    refine h.bind (h.atLine test) fun _ => h.bind (h.mark again test) fun _ => ?_
    exact h.loopCondition term test stop (some top) (h.mark stop test)
  | broken problem => exact h.throw problem
termination_by structural stmt

theorem statements (h : Congruence ctx other R) (loop : Option LoopLabels) (body : List Stmt) :
    R (statements ctx loop body) (statements other loop body) := by
  cases body with
  | nil => exact h.pure ()
  | cons s rest => exact h.bind (statement h loop s) fun _ => statements h loop rest
termination_by structural body

theorem conditionalTail (h : Congruence ctx other R) (loop : Option LoopLabels) (meeting : Option Label)
    (otherwise : Label) (start : Nat) (tail : Tail) :
    R (conditionalTail ctx loop meeting otherwise start tail)
      (conditionalTail other loop meeting otherwise start tail) := by
  cases tail with
  | done after =>
    exact h.bind (h.atLine after) fun _ => h.bind (h.mark otherwise after) fun _ => h.markKnown meeting after
  | elseIf term body rest line =>
    refine h.bind (h.nextArm meeting otherwise start line) fun label => ?_
    refine h.bind (h.armCondition .elseIfArm term line) fun next => ?_
    refine h.bind (h.inScope (statements h loop body)) fun _ => ?_
    exact conditionalTail h loop (some label) next line rest
  | elseArm body line after =>
    refine h.bind (h.nextArm meeting otherwise start line) fun label => ?_
    refine h.bind (h.inScope (statements h loop body)) fun _ => ?_
    exact h.bind (h.atLine after) fun _ => h.mark label after
termination_by structural tail

end

end Congruence

end WorldScript.Body
