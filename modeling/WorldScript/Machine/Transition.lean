import WorldScript.Machine.Config
import WorldScript.Value.Arith
import WorldScript.Value.Cast

/-! # One instruction

Nothing here is recursive: a call of a function of the script puts the running body among the callers,
and a return takes it back.
-/

namespace WorldScript

inductive Transition where
  | next (c : Config)
  /-- The outermost body has ended. -/
  | done (ending : Ending) (store : Store)
  | fault (fault : Fault) (store : Store)

def maxCallDepth : Nat := 64

def numbers : List Value → Except Fault (List Float)
  | [] => .ok []
  | v :: rest =>
    match v.asFloat? with
    | none => .error (.notNumber v.ty)
    | some x => (numbers rest).map (x :: ·)

def ofNumbers : List Float → Value
  | [x, y, z, s] => .rotation ⟨x, y, z, s⟩
  | [x, y, z] => .vector ⟨x, y, z⟩
  | _ => .list []

namespace Config

def attempt (c : Config) : Except Fault Config → Transition
  | .ok next => .next next
  | .error f => .fault f c.store

def mapTop (c : Config) (f : Value → Except Fault Value) : Transition :=
  c.attempt do
    let (v, below) ← c.pop
    return below.push (← f v)

def makeSpatial (c : Config) (count : Nat) : Transition :=
  c.attempt do
    let (values, below) ← c.popMany count
    return below.push (ofNumbers (← numbers values))

def leave (c : Config) (exit : Exit) : Transition :=
  match c.callers, exit with
  | [], _ => .done ⟨exit, c.active.locals⟩ c.store
  | p :: rest, .ret value => .next ⟨c.store, p.resume value, rest⟩
  | p :: _, .changeState _ => .fault (.functionChangedState p.callee.name) c.store

def pushResult (c : Config) (returns : Option Ty) (result : Option Value) : Config :=
  match returns with
  | none => c
  | some ty => c.push ((result.map (Value.coerce ty)).getD ty.defaultValue)

/-- Calls a host function.  Its energy and its effects count also when it fails. -/
def callHost (c : Config) (f : HostFunction) (args : List Value) : Transition :=
  let (result, host) := f.impl c.store.host args
  let store := { c.store with host, energy := c.store.energy + f.cost.energy }
  match result with
  | .error problem => .fault (.host problem) store
  | .ok value => .next ({ c with store }.pushResult f.returns value)

def callScript (c : Config) (f : ScriptFunction Chunk) (args : List Value) : Transition :=
  if maxCallDepth ≤ c.callers.length then .fault .callDepth c.store
  else match Activation.enter f.code args with
    | .error problem => .fault problem c.store
    | .ok active => .next ⟨c.store, active, ⟨c.active, f.signature⟩ :: c.callers⟩

def call (w : World) (c : Config) (callee : Callee) (args : List Value) : Transition :=
  match callee with
  | .host id =>
    match w.registry.functions[id]? with
    | some f => c.callHost f args
    | none => .fault (.noFunction id) c.store
  | .script index =>
    match w.program.functions[index]? with
    | some f => c.callScript f args
    | none => .fault (.noFunction index) c.store

/-- Carries out an instruction; the position is already that of the next one. -/
def execute (w : World) (c : Config) : Instr Nat → Transition
  | .push v => .next (c.push v)
  | .load x => c.attempt do return c.push (← c.read x)
  | .store x => c.attempt do
    let (v, below) ← c.pop
    below.write x v
  | .getMember axis => c.mapTop (Value.component axis)
  | .storeMember x axis => c.attempt do
    let (v, below) ← c.pop
    match v.asFloat? with
    | none => .error (.notComponent v.text)
    | some number => below.write x (← (← below.read x).setComponent axis number)
  | .pop => c.attempt do return (← c.pop).2
  | .dup => c.attempt do return c.push (← c.pop).1
  | .unary op => c.mapTop (Value.unary op)
  | .binary op => c.attempt do
    let (right, one) ← c.pop
    let (left, below) ← one.pop
    return below.push (← Value.binary op left right)
  | .cast ty => c.mapTop (Value.cast ty)
  | .convert ty => c.mapTop fun v => .ok (v.coerce ty)
  | .makeVector => c.makeSpatial 3
  | .makeRotation => c.makeSpatial 4
  | .makeList count => c.attempt do
    let (items, below) ← c.popMany count
    return below.push (.list items)
  | .call callee count =>
    match c.popMany count with
    | .error f => .fault f c.store
    | .ok (args, below) => below.call w callee args
  | .jump target => .next (c.goTo target)
  | .jumpIfFalse target => c.attempt do
    let (v, below) ← c.pop
    return if v.isTrue then below else below.goTo target
  | .ret => c.leave (.ret none)
  | .retValue =>
    match c.pop with
    | .error f => .fault f c.store
    | .ok (v, below) => below.leave (.ret (some v))
  | .changeState index => c.leave (.changeState index)

end Config

end WorldScript
