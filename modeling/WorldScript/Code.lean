import WorldScript.Fault
import WorldScript.Text.Quoted
import WorldScript.Value

/-! # Code of a stack machine

An instruction names the place it jumps to by a `τ`: by a label while code is assembled, by an offset
when it runs.
-/

namespace WorldScript

inductive Callee where
  /-- A host function, by its number in the registry. -/
  | host (id : Nat)
  /-- A function of the script, by its index. -/
  | script (index : Nat)
deriving DecidableEq

def Callee.text : Callee → String
  | .host id => s!"api{id}"
  | .script index => s!"fn{index}"

inductive Instr (τ : Type) where
  | push (value : Value)
  | load (var : Var)
  | store (var : Var)
  /-- Replaces a vector or rotation by one of its components. -/
  | getMember (axis : Axis)
  /-- Moves a number into one component of a variable. -/
  | storeMember (var : Var) (axis : Axis)
  | pop
  | dup
  | unary (op : UnaryOp)
  | binary (op : BinaryOp)
  | cast (ty : Ty)
  | convert (ty : Ty)
  | makeVector
  | makeRotation
  | makeList (count : Nat)
  | call (callee : Callee) (count : Nat)
  | jump (target : τ)
  /-- Takes a value and jumps when it is false. -/
  | jumpIfFalse (target : τ)
  | ret
  /-- Leaves the body with the value on top of the stack. -/
  | retValue
  | changeState (index : Nat)

variable {σ τ : Type}

def Instr.retarget (f : σ → Except ε τ) : Instr σ → Except ε (Instr τ)
  | .push v => .ok (.push v)
  | .load v => .ok (.load v)
  | .store v => .ok (.store v)
  | .getMember a => .ok (.getMember a)
  | .storeMember v a => .ok (.storeMember v a)
  | .pop => .ok .pop
  | .dup => .ok .dup
  | .unary op => .ok (.unary op)
  | .binary op => .ok (.binary op)
  | .cast ty => .ok (.cast ty)
  | .convert ty => .ok (.convert ty)
  | .makeVector => .ok .makeVector
  | .makeRotation => .ok .makeRotation
  | .makeList n => .ok (.makeList n)
  | .call callee n => .ok (.call callee n)
  | .jump target => (f target).map .jump
  | .jumpIfFalse target => (f target).map .jumpIfFalse
  | .ret => .ok .ret
  | .retValue => .ok .retValue
  | .changeState i => .ok (.changeState i)

structure Entry where
  instr : Instr Nat
  line : Nat

/-- The code of one body.  Jumps name the index of an entry, or the end. -/
structure Chunk where
  entries : Array Entry
  /-- Local slots, parameters first. -/
  locals : List Param

end WorldScript
