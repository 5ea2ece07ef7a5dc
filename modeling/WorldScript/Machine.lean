import WorldScript.Machine.Run

/-! # The machine

A machine is made of a program and a host: the variables of the script get their first values, and the
state named `default` is the current one.  From then on it is given events.  A handler may ask for
another state: the current state is left, the other one is entered, and what its entry asks for is
followed likewise.

All instructions for one event share a budget.  What a failed event has done to the variables and to the
host stays done.
-/

namespace WorldScript

def maxInstructions : Nat := 1000000

def maxStateChanges : Nat := 16

structure Machine where
  store : Store
  /-- Index of the current state. -/
  state : Nat
  /-- Locals of the last handler that came to its end, by slot. -/
  lastLocals : List (String × Value)
  /-- How many instructions the event may still take. -/
  budget : Nat

namespace Machine

/-- Work of a machine.  What it did before a fault stays done. -/
abbrev Work := EStateM Fault Machine

def runChunk (w : World) (chunk : Chunk) (args : List Value) : Work Ending := do
  let m ← get
  match Activation.enter chunk args with
  | .error f => throw f
  | .ok active =>
    let result := run w m.budget ⟨m.store, active, []⟩
    set { m with store := result.store, budget := result.budget }
    match result.outcome with
    | .ok ending => return ending
    | .error f => throw f

def runHandler (w : World) (h : Handler Chunk) (args : List Value) : Work Exit := do
  let ending ← runChunk w h.code args
  let names := h.code.locals.map Param.name
  modify fun m => { m with lastLocals := names.zip ending.locals.toList }
  return ending.exit

def handler? (w : World) (state : Nat) (event : String) : Option (Handler Chunk) :=
  (w.program.states[state]?).bind fun s => s.handler? event

/-- Leaves the current state; a request for a state made meanwhile is ignored. -/
def leaveState (w : World) : Work Unit := do
  match handler? w (← get).state "state_exit" with
  | none => pure ()
  | some h => let _ ← runHandler w h []

/-- Makes a state the current one; the result is the state that its entry asks for. -/
def enterState (w : World) (target : Nat) : Work (Option Nat) := do
  modify fun m => { m with state := target }
  match handler? w target "state_entry" with
  | none => return none
  | some h =>
    match ← runHandler w h [] with
    | .changeState next => return some next
    | .ret _ => return none

/-- Follows a request for a state and those that it leads to.  `count` requests may be followed, those
for the current state included. -/
def changeState (w : World) : Nat → Nat → Work Unit
  | 0, _ => throw .stateChangeLimit
  | count + 1, target => do
    if target = (← get).state then return ()
    leaveState w
    match ← enterState w target with
    | some next => changeState w count next
    | none => return ()

def handle (w : World) (h : Handler Chunk) (args : List Value) : Work Unit := do
  match ← runHandler w h args with
  | .changeState target => changeState w maxStateChanges target
  | .ret _ => return ()

def firstValues (w : World) : List (GlobalSlot Chunk) → Work Unit
  | [] => pure ()
  | g :: rest => do
    let ending ← runChunk w g.init []
    let value := match ending.exit with
      | .ret (some v) => v.coerce g.ty
      | _ => g.ty.defaultValue
    modify fun m => { m with store := { m.store with globals := m.store.globals.push value } }
    firstValues w rest

def create (w : World) (host : Host) : Except Fault Machine :=
  match w.program.stateIndex? "default" with
  | none => .error .noDefaultState
  | some state =>
    match (firstValues w w.program.globals).run ⟨⟨#[], host, 0.0⟩, state, [], maxInstructions⟩ with
    | .ok _ m => .ok m
    | .error f _ => .error f

def perform {α : Type} (m : Machine) (work : Work α) : Except Fault α × Machine :=
  match work.run { m with budget := maxInstructions } with
  | .ok a after => (.ok a, after)
  | .error f after => (.error f, after)

def start (w : World) (m : Machine) : Except Fault Unit × Machine :=
  m.perform do
    match handler? w m.state "state_entry" with
    | none => pure ()
    | some h => handle w h []

/-- Gives the machine an event.  The result says whether the current state has a handler for it. -/
def dispatch (w : World) (event : String) (args : List Value) (m : Machine) :
    Except Fault Bool × Machine :=
  m.perform do
    match handler? w m.state event with
    | none => return false
    | some h =>
      if args.length = h.params.length then
        handle w h args
        return true
      else throw (.arity event h.params.length args.length)

def stateName (w : World) (m : Machine) : String :=
  ((w.program.states[m.state]?).map ScriptState.name).getD ""

def globals (w : World) (m : Machine) : List (String × Option Value) :=
  (w.program.globals.zipIdx).map fun g => (g.1.name, m.store.globals[g.2]?)

/-- The value of a local of the last handler that came to its end; of several slots of a name the first
counts. -/
def local? (m : Machine) (name : String) : Option Value := m.lastLocals.lookup name

def takeChat (m : Machine) : Array ChatLine × Machine :=
  let (lines, host) := m.store.host.takeChat
  (lines, { m with store := { m.store with host } })

end Machine

end WorldScript
