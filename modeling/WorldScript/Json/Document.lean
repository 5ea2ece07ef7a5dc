import WorldScript.Number.Shortest
import WorldScript.Table

/-! # JSON documents -/

namespace WorldScript

/-- A JSON document.  The fields of an object keep the order in which they are listed. -/
inductive Document where
  | null
  | bool (b : Bool)
  | integer (n : Int)
  | float (x : Float)
  | string (s : String)
  | array (items : List Document)
  | object (fields : List (String × Document))

namespace Document

def ofFloat (x : Float) : Document :=
  match Number.Parts.ofFloat x with
  | .finite .. => .float x
  | _ => .null

/-- An object with its fields in the order of their names; the last value of a name counts. -/
def ofFields (fields : List (String × Document)) : Document := .object (Table.ofList fields).entries

def field? (d : Document) (name : String) : Option Document :=
  match d with
  | .object fields => (fields.find? fun f => f.1 = name).map Prod.snd
  | _ => none

def item? (d : Document) (index : Nat) : Option Document :=
  match d with
  | .array items => items[index]?
  | _ => none

end Document

end WorldScript
