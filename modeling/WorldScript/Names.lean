import WorldScript.Diagnostic
import WorldScript.Fault

/-! # Names in scope

A script declares variables, functions and states; a body declares locals in nested scopes.  Every local
of a body has a slot of its own, also when its scope is closed.
-/

namespace WorldScript

structure Signature where
  name : String
  returns : Option Ty
  params : List Param
deriving DecidableEq

structure Names where
  /-- Variables of the script, in the order of their slots. -/
  globals : List Param
  functions : List Signature
  states : List String
  /-- How many of the variables an expression may mention. -/
  visibleGlobals : Nat
  /-- Open scopes, the innermost first; a scope lists its names with their slots, the latest first. -/
  scopes : List (List (String × Nat))
  /-- Locals of the body, in the order of their slots. -/
  locals : List Param

namespace Names

def empty : Names := ⟨[], [], [], 0, [], []⟩

def isTaken (n : Names) (name : String) : Bool :=
  n.globals.any (·.name = name) || n.functions.any (·.name = name)

def declareGlobal (n : Names) (name : String) (ty : Ty) (line : Nat) : Except Diagnostic Names :=
  if n.isTaken name then .error (.semantic line (.alreadyDeclared name))
  else
    .ok { n with globals := n.globals ++ [⟨name, ty⟩], visibleGlobals := n.globals.length + 1 }

def declareFunction (n : Names) (signature : Signature) (line : Nat) : Except Diagnostic Names :=
  if n.isTaken signature.name then .error (.semantic line (.alreadyDeclared signature.name))
  else .ok { n with functions := n.functions ++ [signature] }

def declareState (n : Names) (name : String) (line : Nat) : Except Diagnostic Names :=
  if n.states.contains name then .error (.semantic line (.stateDeclaredTwice name))
  else .ok { n with states := n.states ++ [name] }

def functionIndex? (n : Names) (name : String) : Option Nat :=
  n.functions.findIdx? (·.name = name)

def stateIndex? (n : Names) (name : String) : Option Nat := n.states.findIdx? (· = name)

def showGlobals (n : Names) (count : Nat) : Names :=
  { n with visibleGlobals := min count n.globals.length }

def localSlot? (n : Names) (name : String) : Option Nat :=
  n.scopes.findSome? fun scope => scope.lookup name

def global? (n : Names) (name : String) : Option (Var × Ty) :=
  match n.globals.findIdx? (·.name = name) with
  | none => none
  | some i =>
    if i < n.visibleGlobals then n.globals[i]?.map fun g => (.glob i, g.ty) else none

def lookup? (n : Names) (name : String) : Option (Var × Ty) :=
  match n.localSlot? name with
  | some slot => n.locals[slot]?.map fun l => (.loc slot, l.ty)
  | none => n.global? name

def beginBody (n : Names) : Names :=
  { n with visibleGlobals := n.globals.length, scopes := [], locals := [] }

def openScope (n : Names) : Names := { n with scopes := [] :: n.scopes }

def closeScope (n : Names) : Names := { n with scopes := n.scopes.tail }

def declareLocal (n : Names) (name : String) (ty : Ty) (line : Nat) :
    Except Diagnostic (Nat × Names) :=
  match n.scopes with
  | [] => .error (.defect line (.noScope name))
  | scope :: outer =>
    if scope.any (·.1 = name) then .error (.semantic line (.alreadyInScope name))
    else
      let slot := n.locals.length
      .ok (slot, { n with scopes := ((name, slot) :: scope) :: outer, locals := n.locals ++ [⟨name, ty⟩] })

end Names

end WorldScript
