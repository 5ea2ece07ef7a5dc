import WorldScript.Code.Assembly
import WorldScript.Expr.Coding
import WorldScript.Expr.Elaborate
import WorldScript.Label.Book
import WorldScript.Stmt.Parse

/-! # Bodies

The statements of a function or of an event handler are elaborated in order and turned into labelled
code.  The first problem ends the work, but what the receiver of the code was told before stays.

* A conditional jumps over its body when its condition fails; if an `else` follows, the body ends with a
  jump to where all arms meet.
* A loop with its condition first is `again: condition, leave if false, body, jump again, stop:`.
* A counted loop is `top: condition, leave if false, body, again: step, jump top, stop:`.
* A loop with its condition last is `top: body, again: condition, leave if false, jump top, stop:`.
-/

namespace WorldScript

inductive BodyKind where
  | function (returns : Option Ty)
  | event
deriving DecidableEq

def BodyKind.returns : BodyKind → Option Ty
  | .function ty => ty
  | .event => none

structure JumpLabel where
  label : Label
  /-- Line of the first jump or definition. -/
  firstUse : Nat
  definedAt : Option Nat

structure LoopLabels where
  again : Label
  stop : Label

structure BodyContext where
  registry : Registry
  visibility : Visibility
  kind : BodyKind

structure BodyState (σ : Type) where
  names : Names
  book : LabelBook
  jumps : Table String JumpLabel
  backend : σ

abbrev BodyM (σ : Type) := EStateM Diagnostic (BodyState σ)

namespace BodyM

variable {σ : Type} [Backend σ]

def lift {α : Type} (r : Except Diagnostic α) : BodyM σ α :=
  match r with
  | .ok a => pure a
  | .error d => throw d

def write (code : List (Instr Label)) : BodyM σ Unit :=
  modify fun s => { s with backend := Backend.writeAll s.backend code }

def atLine (line : Nat) : BodyM σ Unit := modify fun s => { s with backend := Backend.atLine s.backend line }

def newLabel (purpose : LabelPurpose) (construct : String) (line : Nat) : BodyM σ Label := do
  let s ← get
  let (label, backend) := Backend.newLabel s.backend
  set { s with backend, book := s.book.record label ⟨purpose, construct, line⟩ }
  return label

def mark (label : Label) (line : Nat) : BodyM σ Unit := do
  let s ← get
  let book ← lift (s.book.mark label line)
  set { s with book, backend := Backend.place s.backend label }

def changeNames (f : Names → Names) : BodyM σ Unit := modify fun s => { s with names := f s.names }

def declare (name : String) (ty : Ty) (line : Nat) : BodyM σ Nat := do
  let s ← get
  let (slot, names) ← lift (s.names.declareLocal name ty line)
  set { s with names }
  return slot

end BodyM

namespace Body

open BodyM

variable {σ : Type} [Backend σ]

def env (ctx : BodyContext) : BodyM σ Env := do
  return ⟨ctx.registry, ctx.visibility, (← get).names⟩

def elaborate (ctx : BodyContext) (term : Term) : BodyM σ Expr := do
  let env ← env ctx
  lift (env.elaborate term)

def value (ctx : BodyContext) (term : Term) (line : Nat) : BodyM σ (Expr × Ty) := do
  let e ← elaborate ctx term
  match e.ty with
  | some ty => return (e, ty)
  | none => throw (.semantic line .noValue)

def condition (ctx : BodyContext) (term : Term) (line : Nat) : BodyM σ Unit := do
  let (e, _) ← value ctx term line
  let code ← lift e.valueCode
  write code

def effect (e : Expr) : BodyM σ Unit := do
  let code ← lift e.effectCode
  write code

def effectAll : List Expr → BodyM σ Unit
  | [] => pure ()
  | e :: rest => do
    effect e
    effectAll rest

def effects (ctx : BodyContext) (terms : List Term) : BodyM σ Unit := do
  let env ← env ctx
  let es ← lift (env.elaborateAll terms)
  effectAll es

def jumpLabel (name : String) (line : Nat) : BodyM σ Label := do
  match (← get).jumps.get? name with
  | some known => return known.label
  | none =>
    let label ← newLabel (.user name) "jump" line
    modify fun s => { s with jumps := s.jumps.insert name ⟨label, line, none⟩ }
    return label

/-- Binds the label of a name, which happens once.  The next token stands on line `next`. -/
def defineLabel (name : String) (line next : Nat) : BodyM σ Unit := do
  let label ← jumpLabel name line
  match (← get).jumps.get? name with
  | some known =>
    match known.definedAt with
    | some first => throw (.semantic line (.labelDefinedTwice name first))
    | none => modify fun s => { s with jumps := s.jumps.insert name { known with definedAt := some line } }
  | none => pure ()
  mark label next

def valueOf (ty : Ty) (e : Expr) : BodyM σ Unit := do
  let code ← lift (e.convertedTo ty).valueCode
  write code

/-- A local variable.  Its initializer does not see its name. -/
def declaration (ctx : BodyContext) (ty : Ty) (name : String) (init : Option Term) (line : Nat) :
    BodyM σ Unit := do
  match init with
  | none => write [.push ty.defaultValue]
  | some term =>
    let (e, found) ← value ctx term line
    if ty.accepts found then valueOf ty e
    else throw (.semantic line (.initializerType ty name found))
  let slot ← declare name ty line
  write [.store (.loc slot)]

def expression (ctx : BodyContext) (term : Term) (line next : Nat) : BodyM σ Unit := do
  match ← elaborate ctx term with
  | .label _ name => defineLabel name line next
  | e => effect e

def returning (ctx : BodyContext) (result : Option Term) (line : Nat) : BodyM σ Unit := do
  match ctx.kind.returns, result with
  | some ty, some term =>
    let (e, found) ← value ctx term line
    if ty.accepts found then
      valueOf ty e
      write [.retValue]
    else throw (.semantic line (.returnType found ty))
  | some ty, none => throw (.semantic line (.returnMissing ty))
  | none, some _ =>
    match ctx.kind with
    | .event => throw (.semantic line .returnFromEvent)
    | .function _ => throw (.semantic line .returnFromVoid)
  | none, none => write [.ret]

def stateChange (ctx : BodyContext) (name : String) (line : Nat) : BodyM σ Unit := do
  match ctx.kind with
  | .function _ => throw (.semantic line .stateChangeOutsideEvent)
  | .event =>
    match (← get).names.stateIndex? name with
    | some index => write [.changeState index]
    | none => throw (.semantic line (.undeclaredState name))

def loopJump (target : Option Label) (word : Keyword) (line : Nat) : BodyM σ Unit := do
  match target with
  | some label => write [.jump label]
  | none => throw (.syntactic line (.outsideLoop word))

/-- The label where all arms of a conditional meet, new at the first `else`. -/
def meetingPoint (known : Option Label) (line : Nat) : BodyM σ Label := do
  match known with
  | some label => return label
  | none => newLabel .ifChainEnd Construct.ifArm.text line

def inScope (work : BodyM σ Unit) : BodyM σ Unit := do
  changeNames Names.openScope
  work
  changeNames Names.closeScope

/-- Code of the condition of an arm: the label it jumps to when it fails is bound after the arm. -/
def armCondition (ctx : BodyContext) (construct : Construct) (term : Term) (line : Nat) :
    BodyM σ Label := do
  condition ctx term line
  let otherwise ← newLabel .ifFalse construct.text line
  write [.jumpIfFalse otherwise]
  return otherwise

/-- Code between two arms: the arm that ends here jumps to the meeting point, and a failed condition
comes here. -/
def nextArm (meeting : Option Label) (otherwise : Label) (start line : Nat) : BodyM σ Label := do
  atLine line
  let label ← meetingPoint meeting start
  write [.jump label]
  mark otherwise line
  return label

def markKnown (label : Option Label) (line : Nat) : BodyM σ Unit := do
  match label with
  | some l => mark l line
  | none => pure ()

mutual

def statement (ctx : BodyContext) (loop : Option LoopLabels) : Stmt → BodyM σ Unit
  | .empty => pure ()
  | .block body => inScope (statements ctx loop body)
  | .declare ty name init line => do
    atLine line
    declaration ctx ty name init line
  | .expr term line => do
    atLine line
    expression ctx term line line
  | .ret result line => do
    atLine line
    returning ctx result line
  | .changeState name line => do
    atLine line
    stateChange ctx name line
  | .jump name line => do
    atLine line
    let label ← jumpLabel name line
    write [.jump label]
  | .breakLoop line => do
    atLine line
    loopJump (loop.map LoopLabels.stop) .breakWord line
  | .continueLoop line => do
    atLine line
    loopJump (loop.map LoopLabels.again) .continueWord line
  | .branch term body rest line => do
    atLine line
    let otherwise ← armCondition ctx .ifArm term line
    inScope (statements ctx loop body)
    conditionalTail ctx loop none otherwise line rest
  | .whileLoop term body line after => do
    atLine line
    let again ← newLabel .loopContinue Construct.whileLoop.text line
    let stop ← newLabel .loopEnd Construct.whileLoop.text line
    mark again line
    condition ctx term line
    write [.jumpIfFalse stop]
    inScope (statements ctx (some ⟨again, stop⟩) body)
    atLine after
    write [.jump again]
    mark stop after
  | .forLoop init test step body line after => do
    atLine line
    effects ctx init
    let top ← newLabel .loopTop Construct.forLoop.text line
    let again ← newLabel .loopContinue Construct.forLoop.text line
    let stop ← newLabel .loopEnd Construct.forLoop.text line
    mark top line
    match test with
    | some term =>
      condition ctx term line
      write [.jumpIfFalse stop]
    | none => pure ()
    inScope (statements ctx (some ⟨again, stop⟩) body)
    atLine after
    mark again after
    effects ctx step
    write [.jump top]
    mark stop after
  | .doLoop body term line test => do
    atLine line
    let top ← newLabel .loopTop Construct.doLoop.text line
    let again ← newLabel .loopContinue Construct.doLoop.text line
    let stop ← newLabel .loopEnd Construct.doLoop.text line
    mark top line
    inScope (statements ctx (some ⟨again, stop⟩) body)
    atLine test
    mark again test
    condition ctx term test
    write [.jumpIfFalse stop, .jump top]
    mark stop test
  | .broken problem => throw problem

def statements (ctx : BodyContext) (loop : Option LoopLabels) : List Stmt → BodyM σ Unit
  | [] => pure ()
  | s :: rest => do
    statement ctx loop s
    statements ctx loop rest

/-- Code of what follows an arm of a conditional that starts on line `start`.  A failed condition of
that arm jumps to `otherwise`. -/
def conditionalTail (ctx : BodyContext) (loop : Option LoopLabels) (meeting : Option Label)
    (otherwise : Label) (start : Nat) : Tail → BodyM σ Unit
  | .done after => do
    atLine after
    mark otherwise after
    markKnown meeting after
  | .elseIf term body rest line => do
    let label ← nextArm meeting otherwise start line
    let next ← armCondition ctx .elseIfArm term line
    inScope (statements ctx loop body)
    conditionalTail ctx loop (some label) next line rest
  | .elseArm body line after => do
    let label ← nextArm meeting otherwise start line
    inScope (statements ctx loop body)
    atLine after
    mark label after

end

def declareParams (line : Nat) : List Param → BodyM σ Unit
  | [] => pure ()
  | p :: rest => do
    let _ ← declare p.name p.ty line
    declareParams line rest

def finish (ctx : BodyContext) (stop : Nat) : BodyM σ Unit := do
  match (← get).jumps.entries.find? fun e => e.2.definedAt.isNone with
  | some (name, label) => throw (.semantic label.firstUse (.undefinedLabel name))
  | none => pure ()
  atLine stop
  match ctx.kind.returns with
  | some ty => write [.push ty.defaultValue, .retValue]
  | none => write [.ret]
  changeNames Names.closeScope
  lift ((← get).book.expectAllMarked stop)

def compileTree (ctx : BodyContext) (params : List Param) (start stop : Nat) (tokens : List Token) :
    BodyM σ (List Param) := do
  changeNames fun n => n.beginBody.openScope
  declareParams start params
  statements ctx none (Stmt.ofTokens start stop tokens)
  finish ctx stop
  return (← get).names.locals

def start (names : Names) (backend : σ) : BodyState σ := ⟨names, .empty, .empty, backend⟩

end Body

end WorldScript
