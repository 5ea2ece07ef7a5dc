import WorldScript.Host

/-! # Arguments of host functions

A script calls a host function with arguments of the right types.  Who calls it otherwise learns which
argument is wrong.
-/

namespace WorldScript.Library

def argument {α : Type} (view : Value → Option α) (expected : Expected) (function : String)
    (args : List Value) (index : Nat) : Except HostFault α :=
  match args[index]?.bind view with
  | some a => .ok a
  | none => .error (.badArgument function (index + 1) expected)

def asItems? : Value → Option (List Value)
  | .list items => some items
  | _ => none

def asVector? : Value → Option (Vec3 Float)
  | .vector v => some v
  | _ => none

def integerArg : String → List Value → Nat → Except HostFault Int32 := argument Value.asInteger? .integer

def floatArg : String → List Value → Nat → Except HostFault Float := argument Value.asFloat? .float

def textArg : String → List Value → Nat → Except HostFault String := argument Value.asText? .string

def vectorArg : String → List Value → Nat → Except HostFault (Vec3 Float) := argument asVector? .vector

def listArg : String → List Value → Nat → Except HostFault (List Value) := argument asItems? .list

/-- An index into something of the given length; a negative one counts from the end. -/
def resolveIndex (index : Int32) (length : Nat) : Option Nat :=
  let position := if index < 0 then length + index.toInt else index.toInt
  if 0 ≤ position ∧ position < length then some position.toNat else none

end WorldScript.Library
