import WorldScript.Capability.Offer
import WorldScript.Library.Argument

/-! # Numbers and vectors -/

namespace WorldScript.Library

def pi : Float := 3.141592653589793

def sqrtTwo : Float := 1.4142135623730951

/-- The absolute value; the least integer has none and stays as it is. -/
def abs (args : List Value) : Except HostFault Value := do
  let n ← integerArg "llAbs" args 0
  return .integer (if n < 0 then -n else n)

def fabs (args : List Value) : Except HostFault Value := do
  return .float (← floatArg "llFabs" args 0).abs

def floor (args : List Value) : Except HostFault Value := do
  return .integer (← floatArg "llFloor" args 0).floor.toInt32

def ceil (args : List Value) : Except HostFault Value := do
  return .integer (← floatArg "llCeil" args 0).ceil.toInt32

def round (args : List Value) : Except HostFault Value := do
  let x ← floatArg "llRound" args 0
  return .integer (x + 0.5).floor.toInt32

def sqrt (args : List Value) : Except HostFault Value := do
  return .float (← floatArg "llSqrt" args 0).sqrt

def pow (args : List Value) : Except HostFault Value := do
  let base ← floatArg "llPow" args 0
  let exponent ← floatArg "llPow" args 1
  return .float (base.pow exponent)

def random : HostImpl := fun h args =>
  match floatArg "llFrand" args 0 with
  | .error fault => (.error fault, h)
  | .ok limit =>
    let (unit, next) := h.roll
    (.ok (some (.float (unit * limit))), next)

def vectorMagnitude (args : List Value) : Except HostFault Value := do
  return .float (← vectorArg "llVecMag" args 0).magnitude

def vectorNormal (args : List Value) : Except HostFault Value := do
  return .vector (← vectorArg "llVecNorm" args 0).normalize

def vectorDistance (args : List Value) : Except HostFault Value := do
  let a ← vectorArg "llVecDist" args 0
  let b ← vectorArg "llVecDist" args 1
  return .float (a.sub b).magnitude

def math : Provider where
  name := "math"
  offers := [
    .constant (.ofValue "TRUE" (.integer 1)),
    .constant (.ofValue "FALSE" (.integer 0)),
    .constant (.ofValue "PI" (.float pi)),
    .constant (.ofValue "TWO_PI" (.float (pi * 2.0))),
    .constant (.ofValue "PI_BY_TWO" (.float (pi / 2.0))),
    .constant (.ofValue "DEG_TO_RAD" (.float (pi / 180.0))),
    .constant (.ofValue "RAD_TO_DEG" (.float (180.0 / pi))),
    .constant (.ofValue "SQRT2" (.float sqrtTwo)),
    .constant (.ofValue "ZERO_VECTOR" (.vector .zero)),
    .constant (.ofValue "ZERO_ROTATION" (.rotation .identity)),
    .constant (.ofValue "NULL_KEY" (.key nullKey)),
    .function { FunctionOffer.method "llAbs" [.integer] (some .integer) (.ofValue abs) with
      description := some "Absolute value of an integer" },
    .function { FunctionOffer.method "llFabs" [.float] (some .float) (.ofValue fabs) with
      description := some "Absolute value of a float" },
    .function (.method "llFloor" [.float] (some .integer) (.ofValue floor)),
    .function (.method "llCeil" [.float] (some .integer) (.ofValue ceil)),
    .function (.method "llRound" [.float] (some .integer) (.ofValue round)),
    .function (.method "llSqrt" [.float] (some .float) (.ofValue sqrt)),
    .function (.method "llPow" [.float, .float] (some .float) (.ofValue pow)),
    .function { FunctionOffer.method "llFrand" [.float] (some .float) random with
      description := some "Random float between 0 and the argument" },
    .function (.method "llVecMag" [.vector] (some .float) (.ofValue vectorMagnitude)),
    .function (.method "llVecNorm" [.vector] (some .vector) (.ofValue vectorNormal)),
    .function (.method "llVecDist" [.vector, .vector] (some .float) (.ofValue vectorDistance))]

end WorldScript.Library
