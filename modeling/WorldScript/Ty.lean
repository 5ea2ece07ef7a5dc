/-! # Script types

The eight types of values, their keywords, and the two conversion relations: what may be stored
where another type is expected, and what an explicit cast may convert.
-/

namespace WorldScript

inductive Ty where
  | integer | float | string | key | vector | rotation | list | long
deriving DecidableEq

namespace Ty

def all : List Ty := [.integer, .float, .string, .key, .vector, .rotation, .list, .long]

def keyword : Ty → String
  | .integer => "integer"
  | .float => "float"
  | .string => "string"
  | .key => "key"
  | .vector => "vector"
  | .rotation => "rotation"
  | .list => "list"
  | .long => "long"

/-- The type a word names; `quaternion` is a second name of `rotation`. -/
def ofKeyword? (word : String) : Option Ty :=
  if word = "quaternion" then some .rotation else all.find? fun ty => ty.keyword = word

def isIntegral : Ty → Bool
  | .integer | .long => true
  | _ => false

def isNumeric : Ty → Bool
  | .integer | .long | .float => true
  | _ => false

def accepts (target source : Ty) : Bool :=
  match target, source with
  | .float, .integer | .float, .long | .long, .integer | .string, .key | .key, .string => true
  | _, _ => target == source

def castableFrom (target source : Ty) : Bool :=
  target == source || match target with
    | .string | .list => true
    | .integer | .float | .long => source.isNumeric || source == .string
    | .key | .vector | .rotation => source == .string

end Ty

structure Param where
  name : String
  ty : Ty
deriving DecidableEq

def Ty.commaList (types : List Ty) : String := ", ".intercalate (types.map keyword)

end WorldScript
