import WorldScript.Proofs.Expr.Evaluation

/-! # What statements mean

The names of a statement are bound first, in the scopes in which they stand; what comes out is an
`Action`, a tree of the same constructs.  An action is carried out construct by construct.  It ends
normally, or it leaves the loop around it, or the whole body.
-/

namespace WorldScript

inductive Action where
  | skip
  | seq (first second : Action)
  | effects (es : List Expr)
  /-- Gives a local its first value. -/
  | init (slot : Nat) (value : Expr)
  | ret (value : Option Expr)
  | changeState (index : Nat)
  | breakLoop
  | continueLoop
  | cond (test : Expr) (yes no : Action)
  | whileLoop (test : Expr) (body : Action)
  | forLoop (init : List Expr) (test : Option Expr) (step : List Expr) (body : Action)
  | doLoop (body : Action) (test : Expr)

inductive Flow where
  | normal
  | broke
  /-- The loop around it takes its next turn. -/
  | continued
  | ended (exit : Exit)

namespace Flow

def turns (once : Eval (Option Flow)) : Nat → Eval Flow
  | 0 => throw .exhausted
  | left + 1 => do
    match ← once with
    | some flow => return flow
    | none => turns once left

def afterBody (rest : Eval (Option Flow)) : Flow → Eval (Option Flow)
  | .normal | .continued => rest
  | .broke => return some .normal
  | .ended exit => return some (.ended exit)

def turn (test : Eval Bool) (body : Eval Flow) (step : Eval Unit) : Eval (Option Flow) := do
  if ← test then
    (← body).afterBody do
      step
      return none
  else return some .normal

def goOnIf (test : Eval Bool) : Eval (Option Flow) := do
  if ← test then return none else return some .normal

def turnTestedLast (body : Eval Flow) (test : Eval Bool) : Eval (Option Flow) := do
  (← body).afterBody (goOnIf test)

end Flow

namespace Expr

def effectAll (w : World) (fuel depth : Nat) : List Expr → Eval Unit
  | [] => return ()
  | e :: rest => do
    e.effect w fuel depth
    effectAll w fuel depth rest

theorem effectAll_append (w : World) (fuel depth : Nat) (es more : List Expr) :
    effectAll w fuel depth (es ++ more) =
      effectAll w fuel depth es >>= fun _ => effectAll w fuel depth more := by
  induction es with
  | nil => simp [effectAll]
  | cons e rest ih => simp [effectAll, ih]

def holds (w : World) (fuel depth : Nat) (e : Expr) : Eval Bool := return (← e.eval w fuel depth).isTrue

def holds? (w : World) (fuel depth : Nat) : Option Expr → Eval Bool
  | none => return true
  | some e => e.holds w fuel depth

end Expr

namespace Action

def exec (w : World) (fuel depth : Nat) : Action → Eval Flow
  | .skip => return .normal
  | .seq first second => do
    match ← first.exec w fuel depth with
    | .normal => second.exec w fuel depth
    | flow => return flow
  | .effects es => do
    Expr.effectAll w fuel depth es
    return .normal
  | .init slot value => do
    let v ← value.eval w fuel depth
    (Place.var (.loc slot)).write v
    return .normal
  | .ret none => return .ended (.ret none)
  | .ret (some value) => return .ended (.ret (some (← value.eval w fuel depth)))
  | .changeState index => return .ended (.changeState index)
  | .breakLoop => return .broke
  | .continueLoop => return .continued
  | .cond test yes no => do
    if ← test.holds w fuel depth then yes.exec w fuel depth else no.exec w fuel depth
  | .whileLoop test body =>
    Flow.turns (Flow.turn (test.holds w fuel depth) (body.exec w fuel depth) (return ())) fuel
  | .forLoop before test step body => do
    Expr.effectAll w fuel depth before
    Flow.turns (Flow.turn (Expr.holds? w fuel depth test) (body.exec w fuel depth)
      (Expr.effectAll w fuel depth step)) fuel
  | .doLoop body test =>
    Flow.turns (Flow.turnTestedLast (body.exec w fuel depth) (test.holds w fuel depth)) fuel

/-- Carries out the action of a whole body, which returns the default of its type when it comes to its
end. -/
def execBody (w : World) (fuel depth : Nat) (returns : Option Ty) (a : Action) : Eval Exit := do
  match ← a.exec w fuel depth with
  | .ended exit => return exit
  | _ => return .ret (returns.map Ty.defaultValue)

end Action

namespace Names

def expr? (ctx : BodyContext) (n : Names) (t : Term) : Option Expr :=
  (Env.elaborate ⟨ctx.registry, ctx.visibility, n⟩ t).toOption

def exprs? (ctx : BodyContext) (n : Names) (ts : List Term) : Option (List Expr) :=
  (Env.elaborateAll ⟨ctx.registry, ctx.visibility, n⟩ ts).toOption

def test? (ctx : BodyContext) (n : Names) : Option Term → Option (Option Expr)
  | none => some none
  | some t => (n.expr? ctx t).map some

def inScope? {α : Type} (n : Names) (work : Names → Option (α × Names)) : Option (α × Names) := do
  let (a, after) ← work n.openScope
  return (a, after.closeScope)

end Names

mutual

/-- The action that a statement stands for, and the names after it.  Jumps have none. -/
def Stmt.action? (ctx : BodyContext) : Stmt → Names → Option (Action × Names)
  | .empty, n => some (.skip, n)
  | .block body, n => n.inScope? (Stmt.actions? ctx body)
  | .declare ty name init line, n => do
    let value ← match init with
      | none => some (.ofValue ty.defaultValue line)
      | some t => (n.expr? ctx t).map fun e => e.convertedTo ty
    let (slot, after) ← (n.declareLocal name ty line).toOption
    return (.init slot value, after)
  | .expr t _, n => do return (.effects [← n.expr? ctx t], n)
  | .ret none _, n => some (.ret none, n)
  | .ret (some t) _, n => do
    let ty ← ctx.kind.returns
    let e ← n.expr? ctx t
    return (.ret (some (e.convertedTo ty)), n)
  | .changeState name _, n => do return (.changeState (← n.stateIndex? name), n)
  | .jump _ _, _ => none
  | .breakLoop _, n => some (.breakLoop, n)
  | .continueLoop _, n => some (.continueLoop, n)
  | .branch t body tail _, n => do
    let test ← n.expr? ctx t
    let (yes, between) ← n.inScope? (Stmt.actions? ctx body)
    let (no, after) ← tail.action? ctx between
    return (.cond test yes no, after)
  | .whileLoop t body _ _, n => do
    let test ← n.expr? ctx t
    let (inner, after) ← n.inScope? (Stmt.actions? ctx body)
    return (.whileLoop test inner, after)
  | .forLoop init t step body _ _, n => do
    let before ← n.exprs? ctx init
    let test ← n.test? ctx t
    let (inner, after) ← n.inScope? (Stmt.actions? ctx body)
    let steps ← after.exprs? ctx step
    return (.forLoop before test steps inner, after)
  | .doLoop body t _ _, n => do
    let (inner, after) ← n.inScope? (Stmt.actions? ctx body)
    let test ← after.expr? ctx t
    return (.doLoop inner test, after)
  | .broken _, _ => none
termination_by structural s => s

def Stmt.actions? (ctx : BodyContext) : List Stmt → Names → Option (Action × Names)
  | [], n => some (.skip, n)
  | s :: rest, n => do
    let (first, between) ← s.action? ctx n
    let (others, after) ← Stmt.actions? ctx rest between
    return (.seq first others, after)
termination_by structural ss => ss

def Tail.action? (ctx : BodyContext) : Tail → Names → Option (Action × Names)
  | .done _, n => some (.skip, n)
  | .elseIf t body tail _, n => do
    let test ← n.expr? ctx t
    let (yes, between) ← n.inScope? (Stmt.actions? ctx body)
    let (no, after) ← tail.action? ctx between
    return (.cond test yes no, after)
  | .elseArm body _ _, n => n.inScope? (Stmt.actions? ctx body)
termination_by structural t => t

end

def Names.declareAll? (line : Nat) : List Param → Names → Option Names
  | [], n => some n
  | p :: rest, n => do
    let (_, after) ← (n.declareLocal p.name p.ty line).toOption
    after.declareAll? line rest

structure Routine where
  /-- Its slots, the parameters first. -/
  locals : List Param
  returns : Option Ty
  action : Action

namespace Routine

def ofStmts? (ctx : BodyContext) (names : Names) (params : List Param) (line : Nat) (body : List Stmt) :
    Option Routine := do
  let start ← names.beginBody.openScope.declareAll? line params
  let (action, after) ← Stmt.actions? ctx body start
  return ⟨after.locals, ctx.kind.returns, action⟩

def shown? : EStateM.Result Halt Frame Exit → Option (Except Fault Ending × Store)
  | .ok exit G => some (.ok ⟨exit, G.locals⟩, G.store)
  | .error (.fault f) G => some (.error f, G.store)
  | .error _ _ => none

def outcome? (w : World) (fuel : Nat) (r : Routine) (args : List Value) (store : Store) :
    Option (Except Fault Ending × Store) :=
  match Activation.bind r.locals args with
  | .error f => some (.error f, store)
  | .ok locals => shown? (r.action.execBody w fuel 0 r.returns ⟨store, locals.toArray⟩)

end Routine

end WorldScript
