import WorldScript.Number.Fixed
import WorldScript.Spatial
import WorldScript.Ty

/-! # Script values

Values of the eight types with their text, truth and implicit conversions.
-/

namespace WorldScript

inductive Value where
  | integer (n : Int32)
  | float (x : Float)
  | string (s : String)
  | key (s : String)
  | vector (v : Vec3 Float)
  | rotation (r : Rotation Float)
  | list (items : List Value)
  | long (n : Int64)

def nullKey : String := "00000000-0000-0000-0000-000000000000"

def floatPlaces : Nat := 6

def componentPlaces : Nat := 5

def angled (components : List Float) : String :=
  "<" ++ ", ".intercalate (components.map (Number.fixed componentPlaces)) ++ ">"

def Vec3.text (v : Vec3 Float) : String := angled [v.x, v.y, v.z]

def Rotation.text (r : Rotation Float) : String := angled [r.x, r.y, r.z, r.s]

def Ty.defaultValue : Ty → Value
  | .integer => .integer 0
  | .float => .float 0.0
  | .string => .string ""
  | .key => .key ""
  | .vector => .vector .zero
  | .rotation => .rotation .identity
  | .list => .list []
  | .long => .long 0

namespace Value

def ty : Value → Ty
  | .integer _ => .integer
  | .float _ => .float
  | .string _ => .string
  | .key _ => .key
  | .vector _ => .vector
  | .rotation _ => .rotation
  | .list _ => .list
  | .long _ => .long

def isTrue : Value → Bool
  | .integer n => n != 0
  | .float x => x != 0.0
  | .string s => s != ""
  | .key s => s != "" && s != nullKey
  | .vector v => v != .zero
  | .rotation r => r != .identity
  | .list items => !items.isEmpty
  | .long n => n != 0

def ofBool (b : Bool) : Value := .integer (if b then 1 else 0)

def asFloat? : Value → Option Float
  | .integer n => some (Number.ofInt n.toInt)
  | .float x => some x
  | .long n => some (Number.ofInt n.toInt)
  | _ => none

/-- A number as a 32-bit integer.  A float is cut off towards zero and held within the range, and a
long keeps its low bits. -/
def asInteger? : Value → Option Int32
  | .integer n => some n
  | .float x => some x.toInt32
  | .long n => some n.toInt32
  | _ => none

def asText? : Value → Option String
  | .string s => some s
  | .key s => some s
  | _ => none

/-- A value in the form that `target` requires, for the conversions that `Ty.accepts` allows; any other
value is unchanged. -/
def coerce (target : Ty) (value : Value) : Value :=
  match target, value with
  | .float, .integer n => .float (Number.ofInt n.toInt)
  | .float, .long n => .float (Number.ofInt n.toInt)
  | .long, .integer n => .long n.toInt64
  | .string, .key s => .string s
  | .key, .string s => .key s
  | _, v => v

mutual

def text : Value → String
  | .integer n => toString n.toInt
  | .float x => Number.fixed floatPlaces x
  | .string s => s
  | .key s => s
  | .vector v => v.text
  | .rotation r => r.text
  | .list items => textAll items
  | .long n => toString n.toInt

def textAll : List Value → String
  | [] => ""
  | item :: rest => item.text ++ textAll rest

end

end Value

end WorldScript
