import WorldScript.Capability.Registry
import WorldScript.Expr.Typing
import WorldScript.Names
import WorldScript.Term

/-! # Elaboration

Names are bound and types are computed from the leaves of a term upwards, from left to right.  The first
rule that is broken on this way is the one that is reported.
-/

namespace WorldScript

structure Env where
  registry : Registry
  visibility : Visibility
  names : Names

namespace Expr

def valueTy (e : Expr) : Except Diagnostic Ty :=
  match e.ty with
  | some ty => .ok ty
  | none =>
    match e with
    | .label info name => .error (.semantic info.line (.labelAsValue name))
    | _ => .error (.semantic e.line .noValue)

def negated? : Expr → Option Value
  | .literal _ (.integer n) => some (.integer (-n))
  | .literal _ (.float x) => some (.float (-x))
  | .literal _ (.long n) => some (.long (-n))
  | _ => none

/-- An operation on one value.  A number literal with a minus sign is a literal. -/
def ofUnary (op : UnaryOp) (operand : Expr) (line : Nat) : Except Diagnostic Expr := do
  let ty ← operand.valueTy
  match (if op = .negate then operand.negated? else none) with
  | some value => return .ofValue value line
  | none =>
    match op.resultTy? ty with
    | some result => return .unary ⟨some result, line⟩ op operand
    | none => .error (.semantic line (.unaryOperand op ty))

def ofBinary (op : BinaryOp) (left right : Expr) (line : Nat) : Except Diagnostic Expr := do
  let l ← left.valueTy
  let r ← right.valueTy
  let ty ← op.resultTy l r line
  return .binary ⟨some ty, line⟩ op left right

def ofAssign (assignment : Assignment) (target value : Expr) (line : Nat) : Except Diagnostic Expr :=
  match target.place? with
  | none => .error (.semantic line (.notAssignable assignment))
  | some place => do
    let targetTy ← target.valueTy
    let found ← value.valueTy
    let stored ← match assignment.op with
      | none => .ok found
      | some op => op.resultTy targetTy found line
    if targetTy.accepts stored then
      let value := if assignment.op.isNone then value.convertedTo targetTy else value
      return .assign ⟨some targetTy, line⟩ place assignment.op value
    else .error (.semantic line (.assignmentType stored targetTy))

def ofStep (s : Step) (first : Bool) (operand : Expr) (line : Nat) : Except Diagnostic Expr :=
  match operand.place? with
  | none => .error (.semantic line (.stepPlace s.symbol))
  | some place => do
    let ty ← operand.valueTy
    if ty.isNumeric then return .step ⟨some ty, line⟩ place s first
    else .error (.semantic line (.stepOperand s.symbol ty))

def ofMember (base : Expr) (name : String) (line : Nat) : Except Diagnostic Expr := do
  let ty ← base.valueTy
  match (Axis.ofName? name).filter fun a => a.appliesTo ty with
  | some axis => return .member ⟨some .float, line⟩ base axis
  | none => .error (.semantic line (.noMember ty name))

def ofCast (target : Ty) (operand : Expr) (line : Nat) : Except Diagnostic Expr := do
  let source ← operand.valueTy
  if target.castableFrom source then return .cast ⟨some target, line⟩ target operand
  else .error (.semantic line (.noCast source target))

def ofPart (part : Expr) : Except Diagnostic Expr := do
  let ty ← part.valueTy
  if Ty.float.accepts ty then return part.convertedTo .float
  else .error (.semantic part.line (.componentType ty))

def ofParts (parts : List Expr) (line : Nat) : Except Diagnostic Expr :=
  match parts.length with
  | 3 => .ok (.vector ⟨some .vector, line⟩ parts)
  | 4 => .ok (.rotation ⟨some .rotation, line⟩ parts)
  | n => .error (.syntactic line (.componentCount n))

def checkItems : List Expr → Except Diagnostic Unit
  | [] => .ok ()
  | item :: rest => do
    let ty ← item.valueTy
    if ty = .list then .error (.semantic item.line .listInList) else checkItems rest

def ofItems (items : List Expr) (line : Nat) : Except Diagnostic Expr := do
  checkItems items
  return .list ⟨some .list, line⟩ items

def convertedArgs (name : String) (line : Nat) :
    Nat → List (Expr × Ty) → List Param → Except Diagnostic (List Expr)
  | position, (arg, ty) :: args, param :: params => do
    if param.ty.accepts ty then
      let rest ← convertedArgs name line (position + 1) args params
      return arg.convertedTo param.ty :: rest
    else .error (.semantic line (.argumentType position name param.ty ty))
  | _, _, _ => .ok []

end Expr

namespace Env

def nameExpr (env : Env) (name : String) (line : Nat) : Except Diagnostic Expr :=
  match env.names.lookup? name with
  | some (var, ty) => .ok (.load ⟨some ty, line⟩ var)
  | none =>
    match env.registry.constant? name env.visibility with
    | some c => .ok (.ofValue (c.value.coerce c.ty) line)
    | none =>
      if (env.names.functionIndex? name).isSome || env.registry.hasFunction name env.visibility then
        .error (.semantic line (.functionWithoutCall name))
      else .error (.semantic line (.undeclared name))

def reaches (types : List Ty) (f : HostFunction) : Bool :=
  f.params.length = types.length && (f.params.zip types).all fun (param, ty) => param.accepts ty

/-- The host function that a call means: one whose parameters have the types of the arguments, else the
only one that the arguments can be converted for. -/
def overload (env : Env) (name : String) (types : List Ty) (line : Nat) :
    Except Diagnostic HostFunction :=
  let candidates := env.registry.overloads name env.visibility
  if candidates.isEmpty then .error (.semantic line (.undeclared name))
  else match candidates.find? fun f => f.params = types with
    | some exact => .ok exact
    | none =>
      match candidates.filter (reaches types) with
      | [only] => .ok only
      | [] => .error (.semantic line (.noOverload name types (candidates.map HostFunction.signature)))
      | viable => .error (.semantic line (.ambiguousCall name types (viable.map HostFunction.signature)))

def scriptCall (signature : Signature) (index : Nat) (args : List (Expr × Ty)) (line : Nat) :
    Except Diagnostic Expr := do
  if signature.params.length = args.length then
    let converted ← Expr.convertedArgs signature.name line 1 args signature.params
    return .call ⟨signature.returns, line⟩ (.script index) converted
  else
    .error (.semantic line (.argumentCount signature.name signature.params.length args.length))

def hostCall (env : Env) (name : String) (args : List (Expr × Ty)) (line : Nat) :
    Except Diagnostic Expr := do
  let f ← env.overload name (args.map Prod.snd) line
  let converted := (args.zip f.params).map fun (arg, ty) => arg.1.convertedTo ty
  return .call ⟨f.returns, line⟩ (.host f.id) converted

def callExpr (env : Env) (name : String) (args : List Expr) (line : Nat) : Except Diagnostic Expr := do
  let types ← args.mapM Expr.valueTy
  match env.names.functionIndex? name with
  | some index =>
    match env.names.functions[index]? with
    | some signature => scriptCall signature index (args.zip types) line
    | none => .error (.semantic line (.undeclared name))
  | none => env.hostCall name (args.zip types) line

mutual

def elaborate (env : Env) : Term → Except Diagnostic Expr
  | .literal value line => .ok (.ofValue value line)
  | .name name line => env.nameExpr name line
  | .call name args line => do
    let args ← env.elaborateAll args
    env.callExpr name args line
  | .list items line => do
    let items ← env.elaborateAll items
    Expr.ofItems items line
  | .angle parts line => do
    let parts ← env.elaborateParts parts
    Expr.ofParts parts line
  | .cast target operand line => do
    let operand ← env.elaborate operand
    Expr.ofCast target operand line
  | .label name line => .ok (.label ⟨none, line⟩ name)
  | .unary op operand line => do
    let operand ← env.elaborate operand
    Expr.ofUnary op operand line
  | .step s first operand line => do
    let operand ← env.elaborate operand
    Expr.ofStep s first operand line
  | .member base name line => do
    let base ← env.elaborate base
    Expr.ofMember base name line
  | .binary op left right line => do
    let left ← env.elaborate left
    let right ← env.elaborate right
    Expr.ofBinary op left right line
  | .assign assignment target value line => do
    let target ← env.elaborate target
    let value ← env.elaborate value
    Expr.ofAssign assignment target value line
  | .broken problem => .error problem
  | .brokenAfter before problem => do
    let _ ← env.elaborate before
    .error problem

def elaborateAll (env : Env) : List Term → Except Diagnostic (List Expr)
  | [] => .ok []
  | t :: rest => do
    let first ← env.elaborate t
    let others ← env.elaborateAll rest
    return first :: others

def elaborateParts (env : Env) : List Term → Except Diagnostic (List Expr)
  | [] => .ok []
  | t :: rest => do
    let first ← env.elaborate t
    let part ← Expr.ofPart first
    let others ← env.elaborateParts rest
    return part :: others

end

end Env

end WorldScript
