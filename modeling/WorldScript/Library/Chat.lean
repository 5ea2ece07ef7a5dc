import WorldScript.Capability.Offer
import WorldScript.Library.Argument

/-! # Chat, the object, its timer and its events -/

namespace WorldScript.Library

def publicChannel : Int32 := 0

def debugChannel : Int32 := 0x7fffffff

def effect (f : Host → List Value → Except HostFault Host) : HostImpl := fun h args =>
  match f h args with
  | .ok next => (.ok none, next)
  | .error fault => (.error fault, h)

def say : HostImpl := effect fun h args => do
  let channel ← integerArg "llSay" args 0
  let text ← textArg "llSay" args 1
  return h.say channel text

def ownerSay : HostImpl := effect fun h args => do
  return h.say debugChannel (← textArg "llOwnerSay" args 0)

def instantMessage : HostImpl := effect fun h args => do
  let recipient ← textArg "llInstantMessage" args 0
  let text ← textArg "llInstantMessage" args 1
  return h.say debugChannel s!"[IM {recipient}] {text}"

def fact (f : Host → Value) : HostImpl := fun h _ => (.ok (some (f h)), h)

def setTimer : HostImpl := effect fun h args => do
  return h.setTimer (← floatArg "llSetTimerEvent" args 0)

def sleep (args : List Value) : Except HostFault (Option Value) := do
  let _ ← floatArg "llSleep" args 0
  return none

def chat : Provider where
  name := "chat"
  offers := [
    .constant (.ofValue "PUBLIC_CHANNEL" (.integer publicChannel)),
    .constant (.ofValue "DEBUG_CHANNEL" (.integer debugChannel)),
    .function { FunctionOffer.method "llSay" [.integer, .string] none say with
      description := some "Say text on a channel" },
    .function (.method "llWhisper" [.integer, .string] none say),
    .function (.method "llShout" [.integer, .string] none say),
    .function (.method "llOwnerSay" [.string] none ownerSay),
    .function { FunctionOffer.method "llInstantMessage" [.key, .string] none instantMessage with
      cost := ⟨10.0, 2.0⟩ },
    .function (.method "llGetKey" [] (some .key) (fact fun h => .key h.objectKey)),
    .function (.method "llGetOwner" [] (some .key) (fact fun h => .key h.ownerKey)),
    .function (.method "llGetObjectName" [] (some .string) (fact fun h => .string h.objectName)),
    .function (.method "llSetTimerEvent" [.float] none setTimer),
    .function { FunctionOffer.method "llSleep" [.float] none (.ofPure sleep) with
      cost := ⟨0.0, 0.0⟩
      description := some "Suspend the script; the scheduler applies the pause" },
    .event { EventOffer.ofParams "state_entry" [] with description := some "Entered a state" },
    .event { EventOffer.ofParams "state_exit" [] with description := some "Leaving a state" },
    .event (.ofParams "timer" []),
    .event (.ofParams "touch_start" [.integer]),
    .event (.ofParams "touch_end" [.integer]),
    .event (.ofParams "collision_start" [.integer]),
    .event (.ofParams "on_rez" [.integer]),
    .event (.ofParams "changed" [.integer]),
    .event (.ofParams "listen" [.integer, .string, .key, .string])]

end WorldScript.Library
