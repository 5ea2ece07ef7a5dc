import WorldScript.Capability.Registry
import WorldScript.Code.Listing
import WorldScript.Names

/-! # Programs

What a script becomes: variables, functions and states, whose bodies are values of a type `γ`.  For a
script that runs these are chunks; for one that is only checked there is nothing to keep.
-/

namespace WorldScript

structure GlobalSlot (γ : Type) where
  name : String
  ty : Ty
  init : γ

structure ScriptFunction (γ : Type) where
  signature : Signature
  code : γ

structure Handler (γ : Type) where
  event : String
  params : List Param
  code : γ

structure ScriptState (γ : Type) where
  name : String
  handlers : List (Handler γ)

structure Program (γ : Type) where
  globals : List (GlobalSlot γ)
  functions : List (ScriptFunction γ)
  states : List (ScriptState γ)

def ScriptState.handler? {γ : Type} (s : ScriptState γ) (event : String) : Option (Handler γ) :=
  s.handlers.find? fun h => h.event = event

def Program.stateIndex? {γ : Type} (p : Program γ) (name : String) : Option Nat :=
  p.states.findIdx? fun s => s.name = name

structure CallSite where
  /-- The body that the call stands in. -/
  body : String
  line : Nat
  /-- Number of the function in the registry. -/
  function : Nat
  name : String
deriving DecidableEq

def Entry.callSite? (r : Registry) (body : String) (e : Entry) : Option CallSite :=
  match e.instr with
  | .call (.host id) _ => (r.functions[id]?).map fun f => ⟨body, e.line, id, f.name⟩
  | _ => none

def Chunk.callSites (r : Registry) (body : String) (c : Chunk) : List CallSite :=
  c.entries.toList.filterMap (Entry.callSite? r body)

namespace Program

def callSites (r : Registry) (p : Program Chunk) : List CallSite :=
  p.globals.flatMap (fun g => g.init.callSites r s!"global {g.name}")
    ++ p.functions.flatMap (fun f => f.code.callSites r f.signature.name)
    ++ p.states.flatMap fun s => s.handlers.flatMap fun h => h.code.callSites r s!"{s.name}.{h.event}"

def listing (p : Program Chunk) : String :=
  String.join
    (p.globals.map (fun g => g.init.listing s!"global {g.ty.keyword} {g.name}")
      ++ p.functions.map (fun f => f.code.listing s!"function {f.signature.name}")
      ++ p.states.flatMap fun s => s.handlers.map fun h => h.code.listing s!"{s.name}.{h.event}")

end Program

end WorldScript
