import WorldScript.Operator
import WorldScript.Spatial
import WorldScript.Ty

/-! # Faults of a running script

Each way in which running code can stop is a cause of its own; its text is computed in one place.
-/

namespace WorldScript

inductive Var where
  /-- Slot in the frame of the running body. -/
  | loc (slot : Nat)
  /-- Slot that all bodies share. -/
  | glob (slot : Nat)
deriving DecidableEq

def Var.text : Var → String
  | .loc slot => s!"local{slot}"
  | .glob slot => s!"global{slot}"

inductive Expected where
  | integer | float | string | vector | list
deriving DecidableEq

def Expected.text : Expected → String
  | .integer => "an integer"
  | .float => "a float"
  | .string => "a string"
  | .vector => "a vector"
  | .list => "a list"

inductive HostFault where
  /-- The host could not do what was asked. -/
  | failed (text : String)
  /-- The argument at a position, counted from one, is missing or of a wrong type. -/
  | badArgument (function : String) (position : Nat) (expected : Expected)
deriving DecidableEq

inductive Fault where
  | divisionByZero
  | callDepth
  | instructionLimit
  | stateChangeLimit
  | arity (event : String) (expected given : Nat)
  | host (fault : HostFault)
  | unaryOperand (op : UnaryOp) (operand : Ty)
  | binaryOperands (op : BinaryOp) (left right : Ty)
  | cast (source target : Ty)
  | member (ty : Ty) (axis : Axis)
  | notNumber (ty : Ty)
  | notComponent (text : String)
  | stackUnderflow
  | noVariable (var : Var)
  | tooManyArguments
  | noFunction (index : Nat)
  | functionChangedState (name : String)
  | noDefaultState
deriving DecidableEq

inductive FaultKind where
  | runtime | arguments | call | division | overflow
deriving DecidableEq

namespace HostFault

def kind : HostFault → FaultKind
  | .failed _ => .runtime
  | .badArgument .. => .arguments

def message : HostFault → String
  | .failed text => "Runtime error: " ++ text
  | .badArgument function position expected =>
    s!"Invalid arguments to {function}: argument {position} must be {expected.text}"

end HostFault

namespace Fault

def kind : Fault → FaultKind
  | .divisionByZero => .division
  | .callDepth => .overflow
  | .arity .. => .arguments
  | .host fault => fault.kind
  | .tooManyArguments | .noFunction _ => .call
  | _ => .runtime

def message : Fault → String
  | .divisionByZero => "Math error: division by zero"
  | .callDepth => "Stack overflow"
  | .instructionLimit => "Runtime error: instruction limit exceeded"
  | .stateChangeLimit => "Runtime error: too many consecutive state changes"
  | .arity event expected given =>
    s!"Invalid arguments to {event}: expected {expected} argument(s), got {given}"
  | .host fault => fault.message
  | .unaryOperand op operand =>
    s!"Runtime error: operator '{op.text}' cannot be applied to {operand.keyword}"
  | .binaryOperands op left right =>
    s!"Runtime error: operator '{op.text}' cannot be applied to {left.keyword} and {right.keyword}"
  | .cast source target => s!"Runtime error: cannot cast {source.keyword} to {target.keyword}"
  | .member ty axis => s!"Runtime error: {ty.keyword} has no member '.{axis.name}'"
  | .notNumber ty => s!"Runtime error: {ty.keyword} is not a number"
  | .notComponent text => s!"Runtime error: cannot store {text} in a component"
  | .stackUnderflow => "Runtime error: value stack underflow"
  | .noVariable var => s!"Runtime error: no variable in slot {var.text}"
  | .tooManyArguments => "Invalid function call: too many arguments"
  | .noFunction index => s!"Invalid function call: no script function {index}"
  | .functionChangedState name => s!"Runtime error: function '{name}' changed state"
  | .noDefaultState => "Runtime error: script has no default state"

end Fault

end WorldScript
