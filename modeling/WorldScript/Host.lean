import WorldScript.Fault
import WorldScript.Value

/-! # Hosts

What a script can see and change outside itself.
-/

namespace WorldScript

structure ChatLine where
  channel : Int32
  text : String
deriving DecidableEq

structure Host where
  objectName : String
  objectKey : String
  ownerKey : String
  /-- Chat since the last time it was taken. -/
  chat : Array ChatLine
  /-- Seconds between two timer events. -/
  timer : Float
  /-- State of the generator of random numbers. -/
  dice : UInt64

namespace Host

def named (name : String) : Host := ⟨name, nullKey, nullKey, #[], 0.0, 1⟩

def withKeys (h : Host) (objectKey ownerKey : String) : Host := { h with objectKey, ownerKey }

def say (h : Host) (channel : Int32) (text : String) : Host :=
  { h with chat := h.chat.push ⟨channel, text⟩ }

def takeChat (h : Host) : Array ChatLine × Host := (h.chat, { h with chat := #[] })

def setTimer (h : Host) (seconds : Float) : Host :=
  { h with timer := if seconds > 0.0 then seconds else 0.0 }

def roll (h : Host) : Float × Host :=
  let next := h.dice * 6364136223846793005 + 1442695040888963407
  ((next >>> 11).toFloat / 9007199254740992.0, { h with dice := next })

end Host

/-- What a host function does with its arguments.  Its effects stay also when it fails. -/
abbrev HostImpl := Host → List Value → Except HostFault (Option Value) × Host

def HostImpl.ofPure (f : List Value → Except HostFault (Option Value)) : HostImpl :=
  fun h args => (f args, h)

def HostImpl.ofValue (f : List Value → Except HostFault Value) : HostImpl :=
  .ofPure fun args => (f args).map some

end WorldScript
