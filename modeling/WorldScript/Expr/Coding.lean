import WorldScript.Expr
import WorldScript.Expr.Typing
import WorldScript.Label

/-! # Code of expressions

Operands are pushed from left to right.  The code for the value of an expression leaves that value on
the stack; the code for its effect leaves nothing.
-/

namespace WorldScript

namespace Place

def loadCode : Place → List (Instr Label)
  | .var v => [.load v]
  | .member v a => [.load v, .getMember a]

def storeCode : Place → List (Instr Label)
  | .var v => [.store v]
  | .member v a => [.storeMember v a]

end Place

def Ty.one? : Ty → Option Value
  | .integer => some (.integer 1)
  | .long => some (.long 1)
  | .float => some (.float 1.0)
  | _ => none

namespace Expr

def targetTy (info : Info) : Except Diagnostic Ty :=
  match info.ty with
  | some ty => .ok ty
  | none => .error (.defect info.line .untypedAssignment)

def dupIf (keep : Bool) : List (Instr Label) := if keep then [.dup] else []

def stepCode (info : Info) (place : Place) (s : Step) (first keep : Bool) :
    Except Diagnostic (List (Instr Label)) := do
  let ty ← targetTy info
  match ty.one? with
  | none => .error (.defect info.line (.stepOf ty))
  | some one =>
    return place.loadCode ++ dupIf (keep && !first) ++ [.push one, .binary s.op]
      ++ dupIf (keep && first) ++ place.storeCode

/-- What stands between the code of an assigned value and the store: the operator of a compound
assignment, with a conversion back to the type of the place where that is needed. -/
def compoundCode (info : Info) (op : BinaryOp) (target found : Ty) :
    Except Diagnostic (List (Instr Label)) := do
  let result ← op.resultTy target found info.line
  return if result = target then [.binary op] else [.binary op, .convert target]

/-- Code of an assignment, of which `code` is that of the assigned value; it leaves the assigned value when
`keep` holds. -/
def assignCode (info : Info) (place : Place) (op : Option BinaryOp) (value : Expr)
    (code : Except Diagnostic (List (Instr Label))) (keep : Bool) :
    Except Diagnostic (List (Instr Label)) := do
  let target ← targetTy info
  match op with
  | none =>
    let code ← code
    return code ++ dupIf keep ++ place.storeCode
  | some op =>
    match value.ty with
    | none => .error (.semantic value.line .noValue)
    | some found =>
      let code ← code
      let compound ← compoundCode info op target found
      return place.loadCode ++ code ++ compound ++ dupIf keep ++ place.storeCode

mutual

def valueCode : Expr → Except Diagnostic (List (Instr Label))
  | .literal _ v => .ok [.push v]
  | .load _ v => .ok [.load v]
  | .member _ base a => do return (← base.valueCode) ++ [.getMember a]
  | .unary _ op operand => do return (← operand.valueCode) ++ [.unary op]
  | .binary _ op left right => do
    let l ← left.valueCode
    let r ← right.valueCode
    return l ++ r ++ [.binary op]
  | .assign info place op value => assignCode info place op value value.valueCode true
  | .step info place s first => stepCode info place s first true
  | .cast _ target operand => do return (← operand.valueCode) ++ [.cast target]
  | .convert _ target operand => do return (← operand.valueCode) ++ [.convert target]
  | .call info callee args => do
    if info.ty.isNone then .error (.semantic info.line .voidCall)
    else return (← valuesCode args) ++ [.call callee args.length]
  | .vector _ parts => do return (← valuesCode parts) ++ [.makeVector]
  | .rotation _ parts => do return (← valuesCode parts) ++ [.makeRotation]
  | .list _ items => do return (← valuesCode items) ++ [.makeList items.length]
  | .label info name => .error (.semantic info.line (.labelAsValue name))

def valuesCode : List Expr → Except Diagnostic (List (Instr Label))
  | [] => .ok []
  | e :: rest => do
    let first ← e.valueCode
    let others ← valuesCode rest
    return first ++ others

end

def effectCode : Expr → Except Diagnostic (List (Instr Label))
  | .assign info place op value => assignCode info place op value value.valueCode false
  | .step info place s first => stepCode info place s first false
  | .call info callee args => do
    let code ← valuesCode args
    return code ++ [.call callee args.length] ++ (if info.ty.isSome then [.pop] else [])
  | .label info name => .error (.syntactic info.line (.labelNotAlone name))
  | e => do return (← e.valueCode) ++ [.pop]

/-- Code of an initializer: a value, and a return with it.  What is not initialized starts with the
default of its type. -/
def initializerCode (init : Option Expr) (ty : Ty) : Except Diagnostic (List (Instr Label)) := do
  let code ← match init with
    | some e => e.valueCode
    | none => .ok [.push ty.defaultValue]
  return code ++ [.retValue]

end Expr

end WorldScript
