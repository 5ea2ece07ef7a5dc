import WorldScript.Capability.Registry
import WorldScript.Json.Writing

/-! # Manifests

A description of a registry for other tools, as a JSON document.  Functions and constants are listed by
name, those of one name in the order of their registration.
-/

namespace WorldScript

namespace Value

mutual

def document : Value → Document
  | .integer n => typed "integer" (.integer n.toInt)
  | .float x => typed "float" (.ofFloat x)
  | .string s => typed "string" (.string s)
  | .key s => typed "key" (.string s)
  | .vector v => typed "vector" (.object [("x", .ofFloat v.x), ("y", .ofFloat v.y), ("z", .ofFloat v.z)])
  | .rotation r =>
    typed "rotation"
      (.object [("x", .ofFloat r.x), ("y", .ofFloat r.y), ("z", .ofFloat r.z), ("s", .ofFloat r.s)])
  | .list items => typed "list" (.array (documentsOf items))
  | .long n => typed "long" (.integer n.toInt)
where
  /-- A document under the name of a type. -/
  typed (ty : String) (d : Document) : Document := .object [("type", .string ty), ("value", d)]

def documentsOf : List Value → List Document
  | [] => []
  | v :: rest => v.document :: documentsOf rest

end

end Value

structure Manifest where
  functions : List HostFunction
  constants : List HostConstant
  events : List HostEvent

namespace Manifest

def ofRegistry (r : Registry) : Manifest where
  functions := r.functions.toList.mergeSort fun a b => a.name ≤ b.name
  constants := r.constants.mergeSort fun a b => a.name ≤ b.name
  events := r.events

def tyDocument (ty : Ty) : Document := .string ty.keyword

def tysDocument (tys : List Ty) : Document := .array (tys.map tyDocument)

def dialectsDocument (dialects : DialectSet) : Document :=
  .array (dialects.toList.map fun d => .string d.name)

def optionalField (name : String) (text : Option String) : List (String × Document) :=
  text.elim [] fun t => [(name, .string t)]

def functionDocument (f : HostFunction) : Document :=
  .object ([("name", .string f.name), ("provider", .string f.provider), ("params", tysDocument f.params),
      ("returns", f.returns.elim .null tyDocument), ("dialects", dialectsDocument f.dialects)]
    ++ optionalField "group" f.group ++ optionalField "description" f.description
    ++ [("energy", .ofFloat f.cost.energy), ("delay", .ofFloat f.cost.delay)])

def constantDocument (c : HostConstant) : Document :=
  .object ([("name", .string c.name), ("ty", tyDocument c.ty), ("value", c.value.document),
      ("dialects", dialectsDocument c.dialects)]
    ++ optionalField "group" c.group ++ optionalField "description" c.description)

def eventDocument (e : HostEvent) : Document :=
  .object ([("name", .string e.name), ("params", tysDocument e.params),
      ("dialects", dialectsDocument e.dialects)]
    ++ optionalField "group" e.group ++ optionalField "description" e.description)

def document (m : Manifest) : Document :=
  .object [("functions", .array (m.functions.map functionDocument)),
    ("constants", .array (m.constants.map constantDocument)),
    ("events", .array (m.events.map eventDocument))]

def functionsNamed (m : Manifest) (name : String) : List HostFunction :=
  m.functions.filter fun f => f.name = name

end Manifest

end WorldScript
