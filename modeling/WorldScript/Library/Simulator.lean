import WorldScript.Capability.Offer
import WorldScript.Library.Argument

/-! # Functions of single dialects -/

namespace WorldScript.Library

def simulatorVersion : String := "GridScript 0.1.0"

def isNpc (args : List Value) : Except HostFault Value := do
  let _ ← textArg "osIsNpc" args 0
  return .integer 0

def maxInteger (args : List Value) : Except HostFault Value := do
  let a ← integerArg "osMax" args 0
  let b ← integerArg "osMax" args 1
  return .integer (if a < b then b else a)

/-- The larger of two floats.  What is not a number loses against a number. -/
def larger (a b : Float) : Float := if a < b || a.isNaN then b else a

def maxFloat (args : List Value) : Except HostFault Value := do
  let a ← floatArg "osMax" args 0
  let b ← floatArg "osMax" args 1
  return .float (larger a b)

def onlyFor (d : Dialect) (offer : FunctionOffer) : Offer :=
  .function { offer with dialects := .only d }

def simulator : Provider where
  name := "ossl"
  offers := [
    .constant { ConstantOffer.ofValue "OS_LISTEN_REGEX_NAME" (.integer 1) with dialects := .only .ossl },
    .constant { ConstantOffer.ofValue "OS_LISTEN_REGEX_MESSAGE" (.integer 2) with dialects := .only .ossl },
    onlyFor .ossl (.method "osGetSimulatorVersion" [] (some .string)
      (.ofValue fun _ => .ok (.string simulatorVersion))),
    onlyFor .ossl (.method "osIsNpc" [.key] (some .integer) (.ofValue isNpc)),
    onlyFor .ossl { FunctionOffer.method "osMaxInteger" [.integer, .integer] (some .integer)
        (.ofValue maxInteger) with
      scriptName := some "osMax" },
    onlyFor .ossl { FunctionOffer.method "osMaxFloat" [.float, .float] (some .float)
        (.ofValue maxFloat) with
      scriptName := some "osMax" }]

def engine : Provider where
  name := "xmr"
  offers := [
    onlyFor .xmr { FunctionOffer.method "xmrStackLeft" [] (some .integer)
        (.ofValue fun _ => .ok (.integer 0x7fffffff)) with
      cost := ⟨0.0, 0.0⟩ }]

end WorldScript.Library
