import WorldScript.Diagnostic
import WorldScript.Spatial

/-! # Types of operations -/

namespace WorldScript

def Ty.wider (left right : Ty) : Ty :=
  if left = .float || right = .float then .float
  else if left = .long || right = .long then .long
  else .integer

def Ty.wider? (left right : Ty) : Option Ty :=
  if left.isNumeric && right.isNumeric then some (left.wider right) else none

def Ty.widerIntegral? (left right : Ty) : Option Ty :=
  if left.isIntegral && right.isIntegral then some (left.wider right) else none

namespace BinaryOp

def resultTy? (op : BinaryOp) (left right : Ty) : Option Ty :=
  match op with
  | .and | .or => if left.isIntegral && right.isIntegral then some .integer else none
  | .equal | .notEqual => if left.accepts right || right.accepts left then some .integer else none
  | .less | .lessEqual | .greater | .greaterEqual =>
    if left.isNumeric && right.isNumeric then some .integer else none
  | .shiftLeft | .shiftRight | .bitAnd | .bitXor | .bitOr => left.widerIntegral? right
  | .mod =>
    match left, right with
    | .vector, .vector => some .vector
    | _, _ => left.widerIntegral? right
  | .add =>
    match left, right with
    | .list, _ | _, .list => some .list
    | .string, .string | .string, .key | .key, .string | .key, .key => some .string
    | .vector, .vector => some .vector
    | .rotation, .rotation => some .rotation
    | _, _ => left.wider? right
  | .sub =>
    match left, right with
    | .vector, .vector => some .vector
    | .rotation, .rotation => some .rotation
    | _, _ => left.wider? right
  | .mul =>
    match left, right with
    | .vector, .vector => some .float
    | .vector, .integer | .vector, .float | .integer, .vector | .float, .vector => some .vector
    | .vector, .rotation => some .vector
    | .rotation, .rotation => some .rotation
    | _, _ => left.wider? right
  | .div =>
    match left, right with
    | .vector, .integer | .vector, .float | .vector, .rotation => some .vector
    | .rotation, .rotation => some .rotation
    | _, _ => left.wider? right

def resultTy (op : BinaryOp) (left right : Ty) (line : Nat) : Except Diagnostic Ty :=
  match op.resultTy? left right with
  | some ty => .ok ty
  | none => .error (.semantic line (.binaryOperands op left right))

end BinaryOp

def UnaryOp.resultTy? (op : UnaryOp) (operand : Ty) : Option Ty :=
  match op with
  | .negate =>
    if operand.isNumeric || operand = .vector || operand = .rotation then some operand else none
  | .not => if operand.isIntegral then some .integer else none
  | .bitNot => if operand.isIntegral then some operand else none

def Axis.appliesTo (axis : Axis) : Ty → Bool
  | .vector => axis != .s
  | .rotation => true
  | _ => false

end WorldScript
