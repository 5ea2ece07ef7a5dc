import WorldScript.Proofs.Machine.Calls
import WorldScript.Proofs.Body.Simulation

/-! # What happens during a call

A machine can keep a chronicle of its handlers, of the instructions that they carry out and of the states
that it enters.  But for the chronicle it does what the machine does, so that what the chronicles of all
calls have in common is true of the calls.
-/

namespace WorldScript

structure Visit where
  state : Nat
  handler : Handler Chunk
  asks : Option Nat

inductive Happening where
  | begins (state : Nat) (h : Handler Chunk)
  /-- An instruction is carried out; so many calls are open before it and after it. -/
  | executes (i : Instr Nat) (before after : Nat)
  | ends (visit : Visit)
  | enters (state : Nat)

def Happening.isExecution : Happening → Bool
  | .executes .. => true
  | _ => false

def trail (w : World) : Nat → Config → List Config
  | 0, c => [c]
  | left + 1, c => c ::
    match settle c.store c.active c.callers with
    | .ended .. => []
    | .instr i ready =>
      match ready.execute w i with
      | .next next => trail w left next
      | _ => []

def Config.execution? (w : World) (c : Config) : Option Happening :=
  match settle c.store c.active c.callers with
  | .ended .. => none
  | .instr i ready =>
    match ready.execute w i with
    | .next next => some (.executes i ready.callers.length next.callers.length)
    | _ => some (.executes i ready.callers.length ready.callers.length)

/-- What a run carries out.  With the budget used up, the last configuration is not left any more. -/
def executions (w : World) (budget : Nat) (c : Config) : List Happening :=
  ((trail w budget c).take budget).filterMap (Config.execution? w)

def chunkTrail (w : World) (chunk : Chunk) (args : List Value) (m : Machine) : List Config :=
  match Activation.enter chunk args with
  | .ok a => trail w m.budget ⟨m.store, a, []⟩
  | .error _ => []

def chunkExecutions (w : World) (chunk : Chunk) (args : List Value) (m : Machine) : List Happening :=
  match Activation.enter chunk args with
  | .ok a => executions w m.budget ⟨m.store, a, []⟩
  | .error _ => []

section

variable {w : World} {c : Config} {budget : Nat}

/-- What one step of a run keeps holds of all its configurations. -/
theorem trail_rule {I : Config → Prop} {Q : Ready → Prop}
    (settles : ∀ c, I c → Q (settle c.store c.active c.callers))
    (next : ∀ i c d, Q (.instr i c) → c.execute w i = .next d → I d) (h : I c) :
    ∀ d ∈ trail w budget c, I d := by
  induction budget generalizing c with
  | zero => exact List.forall_mem_singleton.mpr h
  | succ left ih =>
    refine List.forall_mem_cons.mpr ⟨h, ?_⟩
    have hready := settles c h
    split
    · exact List.forall_mem_nil I
    · rename_i i ready hs
      rw [hs] at hready
      split
      · rename_i d he
        exact ih (next i ready d hready he)
      · exact List.forall_mem_nil I

/-- An execution and those after it, or none once the body has ended. -/
theorem executions_succ (w : World) (left : Nat) (c : Config) :
    executions w (left + 1) c = match settle c.store c.active c.callers with
      | .ended .. => []
      | .instr i ready =>
        match ready.execute w i with
        | .next next => .executes i ready.callers.length next.callers.length :: executions w left next
        | _ => [.executes i ready.callers.length ready.callers.length] := by
  unfold executions
  rw [trail, List.take_succ_cons, List.filterMap_cons, Config.execution?]
  cases settle c.store c.active c.callers with
  | ended ending store => simp
  | instr i ready => cases he : ready.execute w i <;> simp [he]

theorem mem_executions {e : Happening} (h : e ∈ executions w budget c) :
    ∃ d ∈ trail w budget c, ∃ i ready, settle d.store d.active d.callers = .instr i ready ∧
      ∃ after, (after = ready ∨ ready.execute w i = .next after) ∧
        e = .executes i ready.callers.length after.callers.length := by
  obtain ⟨d, hd, he⟩ := List.mem_filterMap.mp h
  refine ⟨d, List.mem_of_mem_take hd, ?_⟩
  unfold Config.execution? at he
  split at he
  · cases he
  · rename_i i ready hs
    refine ⟨i, ready, hs, ?_⟩
    split at he
    · rename_i next hnext
      exact ⟨next, .inr hnext, (Option.some.inj he).symm⟩
    · exact ⟨ready, .inl rfl, (Option.some.inj he).symm⟩

end

theorem chunkExecutions_all (w : World) (chunk : Chunk) (args : List Value) (m : Machine) :
    ∀ e ∈ chunkExecutions w chunk args m, e.isExecution = true := by
  intro e he
  unfold chunkExecutions at he
  split at he
  · obtain ⟨-, -, i, ready, -, after, -, rfl⟩ := mem_executions he
    rfl
  · cases he

/-- What is told of the parts of a call, and of an initializer. -/
structure Reporter (ε : Type) where
  begins : Machine → Handler Chunk → List Value → List ε
  ends : Visit → List ε
  enters : Nat → List ε
  initializes : Machine → GlobalSlot Chunk → List ε

def Reporter.happenings (w : World) : Reporter Happening where
  begins m h args := .begins m.state h :: chunkExecutions w h.code args m
  ends visit := [.ends visit]
  enters state := [.enters state]
  initializes m g := chunkExecutions w g.init [] m

def Reporter.configurations (w : World) : Reporter Config where
  begins m h args := chunkTrail w h.code args m
  ends _ := []
  enters _ := []
  initializes m g := chunkTrail w g.init [] m

structure Chronicle (ε : Type) where
  machine : Machine
  log : List ε

namespace Chronicle

section Definitions

variable {ε : Type}

abbrev Telling (ε : Type) := EStateM Fault (Chronicle ε)

def tell (log : List ε) : Telling ε Unit := modify fun c => { c with log := c.log ++ log }

def quietly {α : Type} (work : Machine.Work α) : Telling ε α := fun c =>
  match work c.machine with
  | .ok a m => .ok a ⟨m, c.log⟩
  | .error f m => .error f ⟨m, c.log⟩

variable (r : Reporter ε) (w : World)

def runHandler (h : Handler Chunk) (args : List Value) : Telling ε Exit := do
  let m := (← get).machine
  tell (r.begins m h args)
  let exit ← quietly (Machine.runHandler w h args)
  tell (r.ends ⟨m.state, h, exit.request?⟩)
  return exit

def leaveState : Telling ε Unit := do
  match Machine.handler? w (← get).machine.state "state_exit" with
  | none => pure ()
  | some h => let _ ← runHandler r w h []

def arrive (target : Nat) : Telling ε Unit :=
  modify fun c => ⟨{ c.machine with state := target }, c.log ++ r.enters target⟩

def enterState (target : Nat) : Telling ε (Option Nat) := do
  arrive r target
  match Machine.handler? w target "state_entry" with
  | none => return none
  | some h =>
    let exit ← runHandler r w h []
    return exit.request?

def changeState : Nat → Nat → Telling ε Unit
  | 0, _ => throw .stateChangeLimit
  | count + 1, target => do
    if target = (← get).machine.state then return ()
    leaveState r w
    match ← enterState r w target with
    | some next => changeState count next
    | none => return ()

def handle (h : Handler Chunk) (args : List Value) : Telling ε Unit := do
  match ← runHandler r w h args with
  | .changeState target => changeState r w maxStateChanges target
  | .ret _ => return ()

def work (call : Call) : Telling ε Bool := do
  match Machine.handler? w (← get).machine.state call.event with
  | none => return call.isStart
  | some h =>
    if call.Fits h then
      handle r w h call.args
      return true
    else throw (.arity call.event h.params.length call.args.length)

def firstValue (g : GlobalSlot Chunk) : Telling ε Unit := do
  tell (r.initializes (← get).machine g)
  quietly (Machine.firstValues w [g])

def firstValues : List (GlobalSlot Chunk) → Telling ε Unit
  | [] => pure ()
  | g :: rest => do
    firstValue r w g
    firstValues rest

/-- The result of work from a machine of which nothing is told yet, the machine after it, and what is told. -/
def record {α : Type} (x : Telling ε α) (m : Machine) : (Except Fault α × Machine) × List ε :=
  match x ⟨m, []⟩ with
  | .ok a c => ((.ok a, c.machine), c.log)
  | .error f c => ((.error f, c.machine), c.log)

def recordCall (call : Call) (m : Machine) : (Except Fault Bool × Machine) × List ε :=
  record (work r w call) m.refreshed

def recordCreation (host : Host) : Except Fault Machine × List ε :=
  match w.program.stateIndex? "default" with
  | none => (.error .noDefaultState, [])
  | some state =>
    let told := record (firstValues r w w.program.globals) ⟨⟨#[], host, 0.0⟩, state, [], maxInstructions⟩
    (told.1.1.map fun _ => told.1.2, told.2)

end Definitions

def ofCall (w : World) (call : Call) (m : Machine) : (Except Fault Bool × Machine) × List Happening :=
  recordCall (.happenings w) w call m

def ofCreation (w : World) (host : Host) : Except Fault Machine × List Happening :=
  recordCreation (.happenings w) w host

section Tells

variable {ε α : Type} {x : Telling ε α} {y : Machine.Work α} {r : Reporter ε} {m after : Machine}
  {log : List ε} {f : Chronicle ε → Telling ε α}

abbrev Tells (x : Telling ε α) (y : Machine.Work α) : Prop := Carries Chronicle.machine id x y

theorem quietly_of_ok {a : α} (h : y m = .ok a after) : quietly y ⟨m, log⟩ = .ok a ⟨after, log⟩ := by
  unfold quietly
  rw [h]

theorem quietly_of_error {f : Fault} (h : y m = .error f after) :
    quietly y ⟨m, log⟩ = .error f ⟨after, log⟩ := by
  unfold quietly
  rw [h]

theorem tells_quietly (y : Machine.Work α) : Tells (quietly y : Telling ε α) y := by
  intro c
  unfold quietly
  cases y c.machine <;> rfl

theorem tells_after_tell (log : List ε) (h : Tells x y) : Tells (tell log >>= fun _ => x) y :=
  fun c => h { c with log := c.log ++ log }

theorem tells_get {g : Machine → Machine.Work α} (h : ∀ c, Tells (f c) (g c.machine)) :
    Tells (get >>= f) (get >>= g) := fun c => h c c

theorem tells_look (h : ∀ c, Tells (f c) y) : Tells (get >>= f) y := fun c => h c c

theorem tells_runHandler (w : World) (h : Handler Chunk) (args : List Value) :
    Tells (runHandler r w h args) (Machine.runHandler w h args) := by
  refine tells_look fun c => tells_after_tell _ ?_
  have htell (exit : Exit) : Tells (tell (r.ends ⟨c.machine.state, h, exit.request?⟩) >>= fun _ => pure exit)
      (pure exit) := tells_after_tell _ (.pure exit)
  have hbind := (tells_quietly (Machine.runHandler w h args)).bind htell
  rwa [bind_pure] at hbind

theorem tells_leaveState (w : World) : Tells (leaveState r w) (Machine.leaveState w) := by
  refine tells_get fun c => ?_
  cases Machine.handler? w c.machine.state "state_exit" with
  | none => exact .pure ()
  | some h => exact (tells_runHandler w h []).bind fun _ => .pure ()

theorem tells_enterState (w : World) (target : Nat) :
    Tells (enterState r w target) (Machine.enterState w target) := by
  have harrive : Tells (arrive r target) (modify fun m => { m with state := target }) := .modify fun _ => rfl
  refine harrive.bind fun _ => ?_
  cases Machine.handler? w target "state_entry" with
  | none => exact .pure none
  | some h =>
    refine (tells_runHandler w h []).bind fun exit => ?_
    cases exit with
    | ret value => exact .pure none
    | changeState next => exact .pure (some next)

theorem tells_changeState (w : World) (count target : Nat) :
    Tells (changeState r w count target) (Machine.changeState w count target) := by
  induction count generalizing target with
  | zero => exact .throw Fault.stateChangeLimit
  | succ count ih =>
    refine tells_get fun c => ?_
    split
    · exact .pure ()
    · refine (tells_leaveState w).bind fun _ => (tells_enterState w target).bind fun next => ?_
      cases next with
      | none => exact .pure ()
      | some next => exact ih next

theorem tells_handle (w : World) (h : Handler Chunk) (args : List Value) :
    Tells (handle r w h args) (Machine.handle w h args) := by
  refine (tells_runHandler w h args).bind fun exit => ?_
  cases exit with
  | ret value => exact .pure ()
  | changeState target => exact tells_changeState w maxStateChanges target

/-- But for what it tells, a call does what it does. -/
theorem tells_work (w : World) (call : Call) : Tells (work r w call) (call.work w) := by
  refine tells_get fun c => ?_
  cases Machine.handler? w c.machine.state call.event with
  | none => exact .pure call.isStart
  | some h =>
    dsimp only
    split
    · exact (tells_handle w h call.args).bind fun _ => .pure true
    · exact .throw _

theorem tells_firstValues (w : World) (globals : List (GlobalSlot Chunk)) :
    Tells (firstValues r w globals) (Machine.firstValues w globals) := by
  induction globals with
  | nil => exact .pure ()
  | cons g rest ih =>
    have hfirst : Tells (firstValue r w g) (Machine.firstValues w [g]) :=
      tells_look fun c => tells_after_tell _ (tells_quietly _)
    rw [Machine.firstValues_cons]
    exact hfirst.bind fun _ => ih

theorem record_tells (h : Tells x y) (m : Machine) :
    (record x m).1 = match y m with
      | .ok a after => (.ok a, after)
      | .error f after => (.error f, after) := by
  have hm : y m = _ := h ⟨m, []⟩
  unfold record
  cases hx : x ⟨m, []⟩ with
  | ok a c =>
    rw [hx] at hm
    rw [hm]
    rfl
  | error f c =>
    rw [hx] at hm
    rw [hm]

/-- A call does what it does without a chronicle. -/
theorem recordCall_fst (r : Reporter ε) (w : World) (call : Call) (m : Machine) :
    (recordCall r w call m).1 = m.call w call := by
  rw [Machine.call_eq]
  exact record_tells (tells_work w call) m.refreshed

theorem recordCreation_fst (r : Reporter ε) (w : World) (host : Host) :
    (recordCreation r w host).1 = Machine.create w host := by
  unfold recordCreation Machine.create
  cases w.program.stateIndex? "default" with
  | none => rfl
  | some state =>
    simp only
    rw [record_tells (tells_firstValues w w.program.globals)]
    unfold EStateM.run
    cases Machine.firstValues w w.program.globals ⟨⟨#[], host, 0.0⟩, state, [], maxInstructions⟩ <;> rfl

theorem ofCall_fst (w : World) (call : Call) (m : Machine) : (ofCall w call m).1 = m.call w call :=
  recordCall_fst _ w call m

theorem ofCreation_fst (w : World) (host : Host) : (ofCreation w host).1 = Machine.create w host :=
  recordCreation_fst _ w host

end Tells

/-- A relation of a machine, what is told from then on and the machine after it, and one more relation in
case that work ends with a fault. -/
structure Observation (ε : Type) where
  Along : Machine → List ε → Machine → Prop
  Fails : Fault → List ε → Machine → Prop
  refl : ∀ m, Along m [] m
  trans : ∀ {m mid last log more}, Along m log mid → Along mid more last → Along m (log ++ more) last
  append : ∀ before {f log m}, Fails f log m → Fails f (before ++ log) m

def Observation.always {ε : Type} (P : ε → Prop) (F : Fault → Machine → Prop) : Observation ε where
  Along _ log _ := ∀ e ∈ log, P e
  Fails f _ after := F f after
  refl _ := List.forall_mem_nil P
  trans hlog hmore := List.forall_mem_append.mpr ⟨hlog, hmore⟩
  append _ _ _ _ h := h

section

variable {ε α β : Type} {o : Observation ε} {I : Machine → Prop} {Q : α → Machine → Prop}
  {R : β → Machine → Prop}

/-- From a machine with `I` on the observation is right about work, which leaves its result and the machine
with `Q` if it comes to its end. -/
def Observes (o : Observation ε) (I : Machine → Prop) (x : Telling ε α) (Q : α → Machine → Prop) : Prop :=
  ∀ c, I c.machine → match x c with
    | .ok a d => ∃ log, d.log = c.log ++ log ∧ o.Along c.machine log d.machine ∧ Q a d.machine
    | .error f d => ∃ log, d.log = c.log ++ log ∧ o.Along c.machine log d.machine ∧ o.Fails f log d.machine

namespace Observes

variable {x : Telling ε α}

theorem pure {a : α} (h : ∀ m, I m → Q a m) : Observes o I (pure a) Q :=
  fun c hc => ⟨[], by simp, o.refl c.machine, h c.machine hc⟩

theorem throw {f : Fault} (h : ∀ m, I m → o.Fails f [] m) : Observes o I (throw f) Q :=
  fun c hc => ⟨[], by simp, o.refl c.machine, h c.machine hc⟩

theorem get {f : Chronicle ε → Telling ε β} (hf : ∀ c, I c.machine → Observes o (· = c.machine) (f c) R) :
    Observes o I (get >>= f) R := fun c hc => hf c hc c rfl

theorem weaken {J : Machine → Prop} (h : Observes o I x Q) (hj : ∀ m, J m → I m) : Observes o J x Q :=
  fun c hc => h c (hj c.machine hc)

theorem bind {f : α → Telling ε β} (hx : Observes o I x Q) (hf : ∀ a, Observes o (Q a) (f a) R) :
    Observes o I (x >>= f) R := by
  intro c hc
  have hxc := hx c hc
  cases hr : x c with
  | error e d =>
    rw [hr] at hxc
    rw [run_bind_of_error hr]
    exact hxc
  | ok a d =>
    rw [hr] at hxc
    rw [run_bind_of_ok hr]
    obtain ⟨log, hlog, halong, hq⟩ := hxc
    have hfd := hf a d hq
    cases hr' : f a d with
    | ok b e =>
      rw [hr'] at hfd
      obtain ⟨more, hmore, halong', hrb⟩ := hfd
      exact ⟨log ++ more, by rw [hmore, hlog, List.append_assoc], o.trans halong halong', hrb⟩
    | error f e =>
      rw [hr'] at hfd
      obtain ⟨more, hmore, halong', hfails⟩ := hfd
      exact ⟨log ++ more, by rw [hmore, hlog, List.append_assoc], o.trans halong halong', o.append log hfails⟩

theorem record (h : Observes o I x Q) {m : Machine} (hm : I m) :
    o.Along m (Chronicle.record x m).2 (Chronicle.record x m).1.2 ∧
      (∀ a, (Chronicle.record x m).1.1 = .ok a → Q a (Chronicle.record x m).1.2) ∧
      ∀ f, (Chronicle.record x m).1.1 = .error f →
        o.Fails f (Chronicle.record x m).2 (Chronicle.record x m).1.2 := by
  have hx := h ⟨m, []⟩ hm
  unfold Chronicle.record
  cases hr : x ⟨m, []⟩ with
  | ok a c =>
    rw [hr] at hx
    obtain ⟨log, hlog, halong, hq⟩ := hx
    simp only [hlog, List.nil_append]
    exact ⟨halong, fun b hb => by cases hb; exact hq, nofun⟩
  | error g c =>
    rw [hr] at hx
    obtain ⟨log, hlog, halong, hfails⟩ := hx
    simp only [hlog, List.nil_append]
    exact ⟨halong, nofun, fun f hf => by cases hf; exact hfails⟩

end Observes

end

section

variable {ε : Type} {o : Observation ε} {r : Reporter ε} {w : World} {I : Machine → Prop}

theorem runHandler_eq (r : Reporter ε) (w : World) (h : Handler Chunk) (args : List Value) (c : Chronicle ε) :
    runHandler r w h args c = match Machine.runHandler w h args c.machine with
      | .ok exit m => .ok exit
        ⟨m, c.log ++ (r.begins c.machine h args ++ r.ends ⟨c.machine.state, h, exit.request?⟩)⟩
      | .error f m => .error f ⟨m, c.log ++ r.begins c.machine h args⟩ := by
  change (quietly _ >>= _) (⟨c.machine, c.log ++ r.begins c.machine h args⟩ : Chronicle ε) = _
  cases hr : Machine.runHandler w h args c.machine with
  | ok exit m =>
    rw [run_bind_of_ok (quietly_of_ok hr)]
    dsimp only
    rw [← List.append_assoc]
    rfl
  | error f m => rw [run_bind_of_error (quietly_of_error hr)]

theorem firstValue_eq (r : Reporter ε) (w : World) (g : GlobalSlot Chunk) (c : Chronicle ε) :
    firstValue r w g c = match Machine.firstValues w [g] c.machine with
      | .ok a m => .ok a ⟨m, c.log ++ r.initializes c.machine g⟩
      | .error f m => .error f ⟨m, c.log ++ r.initializes c.machine g⟩ := by
  change quietly _ (⟨c.machine, c.log ++ r.initializes c.machine g⟩ : Chronicle ε) = _
  unfold quietly
  cases Machine.firstValues w [g] c.machine <;> rfl

theorem Observes.runHandler {h : Handler Chunk} {args : List Value} {Q : Exit → Machine → Prop}
    (hok : ∀ m exit after, I m → Machine.runHandler w h args m = .ok exit after →
      o.Along m (r.begins m h args ++ r.ends ⟨m.state, h, exit.request?⟩) after ∧ Q exit after)
    (herror : ∀ m f after, I m → Machine.runHandler w h args m = .error f after →
      o.Along m (r.begins m h args) after ∧ o.Fails f (r.begins m h args) after) :
    Observes o I (runHandler r w h args) Q := by
  intro c hc
  rw [runHandler_eq]
  cases hr : Machine.runHandler w h args c.machine with
  | ok exit m => exact ⟨_, rfl, hok _ _ _ hc hr⟩
  | error f m => exact ⟨_, rfl, herror _ _ _ hc hr⟩

theorem Observes.firstValue {g : GlobalSlot Chunk} {J : Machine → Prop}
    (hok : ∀ m after, I m → Machine.firstValues w [g] m = .ok () after →
      o.Along m (r.initializes m g) after ∧ J after)
    (herror : ∀ m f after, I m → Machine.firstValues w [g] m = .error f after →
      o.Along m (r.initializes m g) after ∧ o.Fails f (r.initializes m g) after) :
    Observes o I (firstValue r w g) fun _ => J := by
  intro c hc
  rw [firstValue_eq]
  cases hr : Machine.firstValues w [g] c.machine with
  | ok a m => exact ⟨_, rfl, hok _ _ hc hr⟩
  | error f m => exact ⟨_, rfl, herror _ _ _ hc hr⟩

end

/-- What has to be known of the parts of a call, where machines have `I`, the states that are asked for have
`Valid`, and handlers and their arguments have `Takes`. -/
structure Observation.Covers {ε : Type} (o : Observation ε) (r : Reporter ε) (w : World) (I : Machine → Prop)
    (Valid : Nat → Prop) (Takes : Handler Chunk → List Value → Prop) : Prop where
  handler : ∀ {h args}, Takes h args → Observes o I (runHandler r w h args)
    fun exit m => I m ∧ ∀ target, exit.request? = some target → Valid target
  takes : ∀ {state event h}, Machine.handler? w state event = some h → Takes h []
  enters : ∀ {target}, Valid target → ∀ m, I m →
    o.Along m (r.enters target) { m with state := target } ∧ I { m with state := target }
  limit : ∀ m, I m → o.Fails .stateChangeLimit [] m

namespace Observation.Covers

variable {ε : Type} {o : Observation ε} {r : Reporter ε} {w : World} {I : Machine → Prop} {Valid : Nat → Prop}
  {Takes : Handler Chunk → List Value → Prop} {target : Nat}

theorem leaveState (ho : o.Covers r w I Valid Takes) : Observes o I (leaveState r w) fun _ => I := by
  refine .get fun c hc => Observes.weaken ?_ fun m (hm : m = _) => hm ▸ hc
  cases hh : Machine.handler? w c.machine.state "state_exit" with
  | none => exact .pure fun _ h => h
  | some h => exact (ho.handler (ho.takes hh)).bind fun _ => .pure fun _ h => h.1

theorem enterState (ho : o.Covers r w I Valid Takes) (ht : Valid target) :
    Observes o I (enterState r w target) fun next m => I m ∧ ∀ t, next = some t → Valid t := by
  have harrive : Observes o I (arrive r target) fun _ => I := fun c hc => ⟨_, rfl, ho.enters ht c.machine hc⟩
  refine harrive.bind fun _ => ?_
  cases hh : Machine.handler? w target "state_entry" with
  | none => exact .pure fun _ h => ⟨h, fun t ht => by cases ht⟩
  | some h => exact (ho.handler (ho.takes hh)).bind fun _ => .pure fun _ h => h

theorem changeState (ho : o.Covers r w I Valid Takes) (count : Nat) (ht : Valid target) :
    Observes o I (changeState r w count target) fun _ => I := by
  induction count generalizing target with
  | zero => exact .throw ho.limit
  | succ count ih =>
    refine .get fun c hc => Observes.weaken ?_ fun m (hm : m = _) => hm ▸ hc
    split
    · exact .pure fun _ h => h
    · refine ho.leaveState.bind fun _ => (ho.enterState ht).bind fun next => ?_
      cases next with
      | none => exact .pure fun _ h => h.1
      | some next => exact fun d hd => ih (hd.2 next rfl) d hd.1

theorem handle (ho : o.Covers r w I Valid Takes) {h : Handler Chunk} {args : List Value} (ht : Takes h args) :
    Observes o I (handle r w h args) fun _ => I := by
  refine (ho.handler ht).bind fun exit => ?_
  cases exit with
  | ret value => exact .pure fun _ h => h.1
  | changeState target => exact fun c hc => ho.changeState maxStateChanges (hc.2 target rfl) c hc.1

/-- What is told of a call is as observed. -/
theorem recordCall (ho : o.Covers r w I Valid Takes) (call : Call) (m : Machine) (hm : I m.refreshed)
    (ht : ∀ h, Machine.handler? w m.state call.event = some h → call.Fits h → Takes h call.args)
    (harity : ∀ h, Machine.handler? w m.state call.event = some h → ¬call.Fits h →
      o.Fails (.arity call.event h.params.length call.args.length) [] m.refreshed) :
    o.Along m.refreshed (recordCall r w call m).2 (m.call w call).2 ∧
      (∀ handled, (m.call w call).1 = .ok handled → I (m.call w call).2) ∧
      ∀ f, (m.call w call).1 = .error f → o.Fails f (recordCall r w call m).2 (m.call w call).2 := by
  rw [← recordCall_fst r]
  refine Observes.record (I := (· = m.refreshed)) (Q := fun _ => I) (Observes.get fun c hc => ?_) rfl
  have hstate : c.machine.state = m.state := by
    rw [hc]
    rfl
  refine Observes.weaken (I := (· = m.refreshed)) ?_ fun d hd => Eq.trans hd hc
  rw [hstate]
  cases hh : Machine.handler? w m.state call.event with
  | none => exact .pure fun d (hd : d = _) => hd ▸ hm
  | some h =>
    dsimp only
    split
    · rename_i hf
      exact ((ho.handle (ht h hh hf)).weaken fun d (hd : d = _) => hd ▸ hm).bind fun _ => .pure fun _ h => h
    · rename_i hf
      exact .throw fun d (hd : d = _) => hd ▸ harity h hh hf

end Observation.Covers

end Chronicle

def Happening.visit? : Happening → Option Visit
  | .ends visit => some visit
  | _ => none

def visits (log : List Happening) : List Visit := log.filterMap Happening.visit?

namespace Sample

def passages : String :=
  "integer n; default { state_entry() { n = successor(n); } heard(integer k) { n += k; state b; } state_exit() { n *= 10; } }"
    ++ " state b { state_entry() { n = -n; } }"

def heard : Call := .dispatch "heard" [.integer 5]

set_option maxRecDepth 1000 in
/-- The event that is heard makes the script leave its first state for the other one. -/
theorem passages_run :
    ∃ p m next last, Script.compile registry options [] passages = .ok p ∧
    Machine.create ⟨p, registry⟩ (.named "sample") = .ok m ∧
    m.call ⟨p, registry⟩ .start = (.ok true, next) ∧ next.call ⟨p, registry⟩ heard = (.ok true, last) ∧
    (Machine.handler? ⟨p, registry⟩ next.state "heard").map (fun h => h.params.map Param.ty) =
      some [.integer] ∧
    (visits ((Chronicle.ofCall ⟨p, registry⟩ .start m).2 ++
      (Chronicle.ofCall ⟨p, registry⟩ heard next).2)).map
      (fun v => (v.state, v.handler.event)) =
        [(0, "state_entry"), (0, "heard"), (0, "state_exit"), (1, "state_entry")] ∧
    last.store.globals.toList.map Value.text = ["-60"] := by
  have hs : passages.toList = _ ++ _ :=
    String.toList_append.trans (congrArg₂ _ String.toList_ofList String.toList_ofList)
  obtain ⟨p, m, hp, hm, h⟩ := exists_machine registry hs (by decide +kernel) (fun p m =>
    let w : World := ⟨p, registry⟩
    match m.call w .start with
    | (.ok true, next) => match next.call w heard with
      | (.ok true, last) =>
        decide ((Machine.handler? w next.state "heard").map (fun h => h.params.map Param.ty) =
          some [.integer]) &&
        decide ((visits ((Chronicle.ofCall w .start m).2 ++ (Chronicle.ofCall w heard next).2)).map
          (fun v => (v.state, v.handler.event)) =
            [(0, "state_entry"), (0, "heard"), (0, "state_exit"), (1, "state_entry")]) &&
        decide (last.store.globals.toList.map Value.text = ["-60"])
      | _ => false
    | _ => false) (by decide +kernel)
  dsimp only at h
  split at h
  · rename_i next hnext
    split at h
    · rename_i last hlast
      simp only [Bool.and_eq_true, decide_eq_true_eq] at h
      exact ⟨p, m, next, last, hp, hm, hnext, hlast, h.1.1, h.1.2, h.2⟩
    · cases h
  · cases h

end Sample

end WorldScript
