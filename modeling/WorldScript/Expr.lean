import WorldScript.Code
import WorldScript.Code.Listing

/-! # Typed expressions

An expression carries what elaboration found out: the slots of variables, the callees of calls and the
type of every part.
-/

namespace WorldScript

inductive Place where
  | var (var : Var)
  | member (var : Var) (axis : Axis)
deriving DecidableEq

def Place.text : Place → String
  | .var v => v.text
  | .member v a => s!"{v.text}.{a.name}"

inductive Step where
  | increment | decrement
deriving DecidableEq

namespace Step

def symbol : Step → Symbol
  | .increment => .increment
  | .decrement => .decrement

def ofSymbol? : Symbol → Option Step
  | .increment => some .increment
  | .decrement => some .decrement
  | _ => none

def op : Step → BinaryOp
  | .increment => .add
  | .decrement => .sub

end Step

/-- Type and source line of an expression; what yields no value has no type. -/
structure Info where
  ty : Option Ty
  line : Nat
deriving DecidableEq

inductive Expr where
  | literal (info : Info) (value : Value)
  | load (info : Info) (var : Var)
  | member (info : Info) (base : Expr) (axis : Axis)
  | unary (info : Info) (op : UnaryOp) (operand : Expr)
  | binary (info : Info) (op : BinaryOp) (left right : Expr)
  | assign (info : Info) (place : Place) (op : Option BinaryOp) (value : Expr)
  /-- A step whose value is that of the place afterwards when `first` holds, else that before it. -/
  | step (info : Info) (place : Place) (step : Step) (first : Bool)
  | cast (info : Info) (target : Ty) (operand : Expr)
  /-- A conversion that the script does not spell out. -/
  | convert (info : Info) (target : Ty) (operand : Expr)
  | call (info : Info) (callee : Callee) (args : List Expr)
  | vector (info : Info) (parts : List Expr)
  | rotation (info : Info) (parts : List Expr)
  | list (info : Info) (items : List Expr)
  | label (info : Info) (name : String)

namespace Expr

def info : Expr → Info
  | literal i _ | load i _ | member i _ _ | unary i _ _ | binary i _ _ _ | assign i _ _ _
  | step i _ _ _ | cast i _ _ | convert i _ _ | call i _ _ | vector i _ | rotation i _ | list i _
  | label i _ => i

def ty (e : Expr) : Option Ty := e.info.ty

def line (e : Expr) : Nat := e.info.line

def ofValue (value : Value) (line : Nat) : Expr := .literal ⟨some value.ty, line⟩ value

def place? : Expr → Option Place
  | .load _ v => some (.var v)
  | .member _ (.load _ v) a => some (.member v a)
  | _ => none

def convertedTo (e : Expr) (target : Ty) : Expr :=
  if e.ty = some target then e else .convert ⟨some target, e.line⟩ target e

mutual

def text : Expr → String
  | .literal _ v => v.literalText
  | .load _ v => v.text
  | .member _ base a => s!"{base.text}.{a.name}"
  | .unary _ op operand => s!"{op.text}{operand.text}"
  | .binary _ op left right => s!"({left.text} {op.text} {right.text})"
  | .assign _ place op value => s!"({place.text} {Assignment.text (Assignment.mk op)} {value.text})"
  | .step _ place s first =>
    if first then s.symbol.text ++ place.text else place.text ++ s.symbol.text
  | .cast _ target operand => s!"({target.keyword}){operand.text}"
  | .convert _ _ operand => operand.text
  | .call _ callee args => callee.text ++ "(" ++ ", ".intercalate (texts args) ++ ")"
  | .vector _ parts | .rotation _ parts => "<" ++ ", ".intercalate (texts parts) ++ ">"
  | .list _ items => "[" ++ ", ".intercalate (texts items) ++ "]"
  | .label _ name => s!"@{name}"

def texts : List Expr → List String
  | [] => []
  | e :: rest => e.text :: texts rest

end

end Expr

end WorldScript
