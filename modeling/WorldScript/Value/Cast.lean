import WorldScript.Fault
import WorldScript.Value.Reading

/-! # Explicit casts -/

namespace WorldScript.Value

/-- The integer a cast makes of a float: the fraction is cut off, and a number out of range becomes the
least integer. -/
def truncate (x : Float) : Int32 :=
  if -2147483648.0 ≤ x && x ≤ 2147483647.0 then x.toInt32 else Int32.minValue

def cast (target : Ty) (value : Value) : Except Fault Value :=
  if value.ty = target then .ok value
  else match target, value with
    | .string, v => .ok (.string v.text)
    | .list, v => .ok (.list [v])
    | .key, .string s => .ok (.key s)
    | .integer, .string s => .ok (.integer (Int32.ofInt ((Reading.integer? s).getD 0)))
    | .long, .string s => .ok (.long (Int64.ofInt ((Reading.integer? s).getD 0)))
    | .float, .string s => .ok (.float ((Reading.float? s).getD 0.0))
    | .vector, .string s => .ok (.vector ((Reading.vector? s).getD .zero))
    | .rotation, .string s => .ok (.rotation ((Reading.rotation? s).getD .identity))
    | .integer, .float x => .ok (.integer (truncate x))
    | .integer, .long n => .ok (.integer n.toInt32)
    | .long, .integer n => .ok (.long n.toInt64)
    | .long, .float x => .ok (.long x.toInt64)
    | .float, .integer n => .ok (.float (Number.ofInt n.toInt))
    | .float, .long n => .ok (.float (Number.ofInt n.toInt))
    | target, v => .error (.cast v.ty target)

end WorldScript.Value
