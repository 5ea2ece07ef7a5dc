import WorldScript.Fault
import WorldScript.Value

/-! # Operators on values

Integers and longs wrap around; two numbers of different types meet in the wider one, float being the
widest.  Division by zero is the only way in which well-typed operands can fail.
-/

namespace WorldScript.Value

inductive Promoted where
  | integers (a b : Int32)
  | longs (a b : Int64)
  | floats (a b : Float)

def promote (left right : Value) : Option Promoted :=
  match left, right with
  | .integer a, .integer b => some (.integers a b)
  | .long a, .long b => some (.longs a b)
  | .long a, .integer b => some (.longs a b.toInt64)
  | .integer a, .long b => some (.longs a.toInt64 b)
  | .float a, r => r.asFloat?.map (.floats a)
  | l, .float b => l.asFloat?.map fun a => .floats a b
  | _, _ => none

def mismatch (op : BinaryOp) (left right : Value) : Except Fault Value :=
  .error (.binaryOperands op left.ty right.ty)

/-- Whether two values are equal.  Strings and keys compare as text, and lists by their lengths. -/
def equals (left right : Value) : Bool :=
  match promote left right with
  | some (.integers a b) => a == b
  | some (.longs a b) => a == b
  | some (.floats a b) => a == b
  | none =>
    match left, right with
    | .string a, .string b | .string a, .key b | .key a, .string b | .key a, .key b => a == b
    | .list a, .list b => a.length == b.length
    | .vector a, .vector b => a == b
    | .rotation a, .rotation b => a == b
    | _, _ => false

inductive Comparison where
  | less | lessEqual | greater | greaterEqual

def Comparison.op : Comparison → BinaryOp
  | .less => .less
  | .lessEqual => .lessEqual
  | .greater => .greater
  | .greaterEqual => .greaterEqual

/-- Outcome of a comparison of numbers; nothing compares with a float that is not a number. -/
def Comparison.holds : Comparison → Promoted → Bool
  | .less, .integers a b => a < b
  | .less, .longs a b => a < b
  | .less, .floats a b => a < b
  | .lessEqual, .integers a b => a ≤ b
  | .lessEqual, .longs a b => a ≤ b
  | .lessEqual, .floats a b => a ≤ b
  | .greater, .integers a b => b < a
  | .greater, .longs a b => b < a
  | .greater, .floats a b => b < a
  | .greaterEqual, .integers a b => b ≤ a
  | .greaterEqual, .longs a b => b ≤ a
  | .greaterEqual, .floats a b => b ≤ a

def compare (c : Comparison) (left right : Value) : Except Fault Value :=
  match promote left right with
  | some numbers => .ok (ofBool (c.holds numbers))
  | none => mismatch c.op left right

def onIntegers (op : BinaryOp) (a b : Int32) : Option (Except Fault Int32) :=
  match op with
  | .add => some (.ok (a + b))
  | .sub => some (.ok (a - b))
  | .mul => some (.ok (a * b))
  | .div => some (if b = 0 then .error .divisionByZero else .ok (a / b))
  | .mod => some (if b = 0 then .error .divisionByZero else .ok (a % b))
  | .shiftLeft => some (.ok (a <<< b))
  | .shiftRight => some (.ok (a >>> b))
  | .bitAnd => some (.ok (a &&& b))
  | .bitXor => some (.ok (a ^^^ b))
  | .bitOr => some (.ok (a ||| b))
  | _ => none

def onLongs (op : BinaryOp) (a b : Int64) : Option (Except Fault Int64) :=
  match op with
  | .add => some (.ok (a + b))
  | .sub => some (.ok (a - b))
  | .mul => some (.ok (a * b))
  | .div => some (if b = 0 then .error .divisionByZero else .ok (a / b))
  | .mod => some (if b = 0 then .error .divisionByZero else .ok (a % b))
  | .shiftLeft => some (.ok (a <<< b))
  | .shiftRight => some (.ok (a >>> b))
  | .bitAnd => some (.ok (a &&& b))
  | .bitXor => some (.ok (a ^^^ b))
  | .bitOr => some (.ok (a ||| b))
  | _ => none

def onFloats (op : BinaryOp) (a b : Float) : Option (Except Fault Float) :=
  match op with
  | .add => some (.ok (a + b))
  | .sub => some (.ok (a - b))
  | .mul => some (.ok (a * b))
  | .div => some (if b == 0.0 then .error .divisionByZero else .ok (a / b))
  | _ => none

def arithmetic (op : BinaryOp) (left right : Value) : Except Fault Value :=
  let result? := match promote left right with
    | some (.integers a b) => (onIntegers op a b).map (Except.map integer)
    | some (.longs a b) => (onLongs op a b).map (Except.map long)
    | some (.floats a b) => (onFloats op a b).map (Except.map float)
    | none => none
  result?.getD (mismatch op left right)

def spatial (op : BinaryOp) (left right : Value) : Except Fault Value :=
  match op, left, right with
  | .add, .vector a, .vector b => .ok (.vector (a.add b))
  | .sub, .vector a, .vector b => .ok (.vector (a.sub b))
  | .mul, .vector a, .vector b => .ok (.float (a.dot b))
  | .mod, .vector a, .vector b => .ok (.vector (a.cross b))
  | .mul, .vector v, .rotation r => .ok (.vector (v.rotate r))
  | .div, .vector v, .rotation r => .ok (.vector (v.rotate r.conjugate))
  | .add, .rotation a, .rotation b => .ok (.rotation (a.add b))
  | .sub, .rotation a, .rotation b => .ok (.rotation (a.sub b))
  | .mul, .rotation a, .rotation b => .ok (.rotation (a.mul b))
  | .div, .rotation a, .rotation b => .ok (.rotation (a.mul b.conjugate))
  | .mul, .vector v, n =>
    match n.asFloat? with
    | some factor => .ok (.vector (v.scale factor))
    | none => mismatch op left right
  | .mul, n, .vector v =>
    match n.asFloat? with
    | some factor => .ok (.vector (v.scale factor))
    | none => mismatch op left right
  | .div, .vector v, n =>
    match n.asFloat? with
    | some divisor =>
      if divisor == 0.0 then .error .divisionByZero else .ok (.vector (v.scale (1.0 / divisor)))
    | none => mismatch op left right
  | _, _, _ => mismatch op left right

def isSpatial : Value → Bool
  | .vector _ | .rotation _ => true
  | _ => false

def combine (op : BinaryOp) (left right : Value) : Except Fault Value :=
  if left.isSpatial || right.isSpatial then spatial op left right else arithmetic op left right

/-- A sum.  A list takes the other operand in at its side, and strings and keys are joined. -/
def sum (left right : Value) : Except Fault Value :=
  match left, right with
  | .list a, .list b => .ok (.list (a ++ b))
  | .list a, item => .ok (.list (a ++ [item]))
  | item, .list b => .ok (.list (item :: b))
  | .string a, .string b | .string a, .key b | .key a, .string b | .key a, .key b =>
    .ok (.string (a ++ b))
  | left, right => combine .add left right

def binary (op : BinaryOp) (left right : Value) : Except Fault Value :=
  match op with
  | .and => .ok (ofBool (left.isTrue && right.isTrue))
  | .or => .ok (ofBool (left.isTrue || right.isTrue))
  | .equal => .ok (ofBool (equals left right))
  | .notEqual => .ok (ofBool (!equals left right))
  | .less => compare .less left right
  | .lessEqual => compare .lessEqual left right
  | .greater => compare .greater left right
  | .greaterEqual => compare .greaterEqual left right
  | .add => sum left right
  | op => combine op left right

def unary (op : UnaryOp) (value : Value) : Except Fault Value :=
  match op, value with
  | .not, v => .ok (ofBool (!v.isTrue))
  | .negate, .integer n => .ok (.integer (-n))
  | .negate, .long n => .ok (.long (-n))
  | .negate, .float x => .ok (.float (-x))
  | .negate, .vector v => .ok (.vector (v.scale (-1.0)))
  | .negate, .rotation r => .ok (.rotation r.neg)
  | .bitNot, .integer n => .ok (.integer (~~~n))
  | .bitNot, .long n => .ok (.long (~~~n))
  | op, v => .error (.unaryOperand op v.ty)

def component (axis : Axis) (value : Value) : Except Fault Value :=
  match value, axis with
  | .vector v, .x => .ok (.float v.x)
  | .vector v, .y => .ok (.float v.y)
  | .vector v, .z => .ok (.float v.z)
  | .rotation r, .x => .ok (.float r.x)
  | .rotation r, .y => .ok (.float r.y)
  | .rotation r, .z => .ok (.float r.z)
  | .rotation r, .s => .ok (.float r.s)
  | v, axis => .error (.member v.ty axis)

def setComponent (axis : Axis) (x : Float) (value : Value) : Except Fault Value :=
  match value, axis with
  | .vector v, .x => .ok (.vector { v with x := x })
  | .vector v, .y => .ok (.vector { v with y := x })
  | .vector v, .z => .ok (.vector { v with z := x })
  | .rotation r, .x => .ok (.rotation { r with x := x })
  | .rotation r, .y => .ok (.rotation { r with y := x })
  | .rotation r, .z => .ok (.rotation { r with z := x })
  | .rotation r, .s => .ok (.rotation { r with s := x })
  | v, axis => .error (.member v.ty axis)

end WorldScript.Value
