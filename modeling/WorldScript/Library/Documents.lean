import WorldScript.Capability.Offer
import WorldScript.Json.Reading
import WorldScript.Json.Writing
import WorldScript.Library.Argument

/-! # JSON documents

Scripts handle documents as strings.  Characters that no text uses stand for the kinds of documents and
for the words of JSON.
-/

namespace WorldScript.Library

def jsonGroup : String := "json"

def mark (n : Nat) : String := String.ofList [Char.ofNat (0xFDD0 + n)]

def invalidMark : String := mark 0

def objectMark : String := mark 1

def arrayMark : String := mark 2

def numberMark : String := mark 3

def stringMark : String := mark 4

def nullMark : String := mark 5

def trueMark : String := mark 6

def falseMark : String := mark 7

def select (d : Document) : List Value → Option Document
  | [] => some d
  | .string name :: rest => (d.field? name).bind (select · rest)
  | .integer i :: rest => if i < 0 then none else (d.item? i.toInt.toNat).bind (select · rest)
  | _ => none

def lookup (function : String) (args : List Value) : Except HostFault (Option Document) := do
  let text ← textArg function args 0
  let path ← listArg function args 1
  return (Document.read? text).bind (select · path)

def documentValue : Option Document → String
  | none => invalidMark
  | some (.string s) => s
  | some .null => nullMark
  | some (.bool b) => if b then trueMark else falseMark
  | some d => d.compact

def documentKind : Option Document → String
  | none => invalidMark
  | some (.object _) => objectMark
  | some (.array _) => arrayMark
  | some (.integer _) | some (.float _) => numberMark
  | some (.string _) => stringMark
  | some .null => nullMark
  | some (.bool b) => if b then trueMark else falseMark

def toDocument : Value → Document
  | .integer n => .integer n.toInt
  | .long n => .integer n.toInt
  | .float x => .ofFloat x
  | .string s =>
    if s = trueMark then .bool true
    else if s = falseMark then .bool false
    else if s = nullMark then .null
    else .string s
  | v => .string v.text

def pairs : List Value → List (String × Document)
  | name :: value :: rest => (name.text, toDocument value) :: pairs rest
  | _ => []

def listDocument? (kind : String) (items : List Value) : Option Document :=
  if kind = arrayMark then some (.array (items.map toDocument))
  else if kind = objectMark && items.length % 2 = 0 then some (.ofFields (pairs items))
  else none

def jsonGetValue (args : List Value) : Except HostFault Value := do
  return .string (documentValue (← lookup "llJsonGetValue" args))

def jsonValueType (args : List Value) : Except HostFault Value := do
  return .string (documentKind (← lookup "llJsonValueType" args))

def listToJson (args : List Value) : Except HostFault Value := do
  let kind ← textArg "llList2Json" args 0
  let items ← listArg "llList2Json" args 1
  return .string ((listDocument? kind items).elim invalidMark Document.compact)

def jsonConstant (name text : String) : Offer :=
  .constant { ConstantOffer.ofValue name (.string text) with group := some jsonGroup }

def jsonFunction (name : String) (f : List Value → Except HostFault Value) : Offer :=
  .function { FunctionOffer.method name [.string, .list] (some .string) (.ofValue f) with
    group := some jsonGroup }

def documents : Provider where
  name := "json"
  offers := [
    jsonConstant "JSON_INVALID" invalidMark,
    jsonConstant "JSON_OBJECT" objectMark,
    jsonConstant "JSON_ARRAY" arrayMark,
    jsonConstant "JSON_NUMBER" numberMark,
    jsonConstant "JSON_STRING" stringMark,
    jsonConstant "JSON_NULL" nullMark,
    jsonConstant "JSON_TRUE" trueMark,
    jsonConstant "JSON_FALSE" falseMark,
    jsonFunction "llJsonGetValue" jsonGetValue,
    jsonFunction "llJsonValueType" jsonValueType,
    jsonFunction "llList2Json" listToJson]

end WorldScript.Library
