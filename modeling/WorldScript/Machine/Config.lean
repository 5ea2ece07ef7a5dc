import WorldScript.Host
import WorldScript.Script.Program

/-! # Configurations of the machine

A configuration holds what all bodies share, the body that runs, and the bodies that wait for a call of
theirs to return.  Instructions work on the stack and on the variables.
-/

namespace WorldScript

structure World where
  program : Program Chunk
  registry : Registry

structure Store where
  /-- Values of the variables of the script, by slot. -/
  globals : Array Value
  host : Host
  /-- Energy that calls of host functions have used. -/
  energy : Float

structure Activation where
  chunk : Chunk
  /-- Index of the next instruction. -/
  position : Nat
  /-- Values in the making, the top first. -/
  stack : List Value
  /-- Values of the locals, by slot. -/
  locals : Array Value

structure Pending where
  caller : Activation
  callee : Signature

structure Config where
  store : Store
  active : Activation
  /-- Who waits for the active body, the innermost caller first. -/
  callers : List Pending

inductive Exit where
  | ret (value : Option Value)
  | changeState (index : Nat)

structure Ending where
  exit : Exit
  locals : Array Value

namespace Activation

/-- The locals of a chunk at its start: the arguments in the first slots, converted to their types, and
defaults in the others. -/
def bind : List Param → List Value → Except Fault (List Value)
  | locals, [] => .ok (locals.map fun l => l.ty.defaultValue)
  | [], _ :: _ => .error .tooManyArguments
  | l :: rest, v :: args => (bind rest args).map (v.coerce l.ty :: ·)

def enter (chunk : Chunk) (args : List Value) : Except Fault Activation :=
  (bind chunk.locals args).map fun locals => ⟨chunk, 0, [], locals.toArray⟩

def fetch? (a : Activation) : Option (Instr Nat) := (a.chunk.entries[a.position]?).map Entry.instr

end Activation

/-- A caller that goes on after its call.  A function without a value leaves none, and one that should
have left a value and did not leaves the default of its type. -/
def Pending.resume (p : Pending) (value : Option Value) : Activation :=
  match p.callee.returns with
  | none => p.caller
  | some ty => { p.caller with stack := value.getD ty.defaultValue :: p.caller.stack }

/-- The top `count` values of a stack in the order in which they were pushed, before those in `taken`,
and the stack below them. -/
def takeTop (taken : List Value) : Nat → List Value → Option (List Value × List Value)
  | 0, stack => some (taken, stack)
  | _ + 1, [] => none
  | n + 1, v :: stack => takeTop (v :: taken) n stack

namespace Config

def push (c : Config) (v : Value) : Config :=
  { c with active := { c.active with stack := v :: c.active.stack } }

def pop (c : Config) : Except Fault (Value × Config) :=
  match c.active.stack with
  | [] => .error .stackUnderflow
  | v :: stack => .ok (v, { c with active := { c.active with stack } })

def popMany (c : Config) (count : Nat) : Except Fault (List Value × Config) :=
  match takeTop [] count c.active.stack with
  | none => .error .stackUnderflow
  | some (values, stack) => .ok (values, { c with active := { c.active with stack } })

def read (c : Config) (x : Var) : Except Fault Value :=
  let value := match x with
    | .loc slot => c.active.locals[slot]?
    | .glob slot => c.store.globals[slot]?
  match value with
  | some v => .ok v
  | none => .error (.noVariable x)

def write (c : Config) (x : Var) (v : Value) : Except Fault Config :=
  match x with
  | .loc slot =>
    if slot < c.active.locals.size then
      .ok { c with active := { c.active with locals := c.active.locals.setIfInBounds slot v } }
    else .error (.noVariable x)
  | .glob slot =>
    if slot < c.store.globals.size then
      .ok { c with store := { c.store with globals := c.store.globals.setIfInBounds slot v } }
    else .error (.noVariable x)

def goTo (c : Config) (position : Nat) : Config := { c with active := { c.active with position } }

end Config

end WorldScript
