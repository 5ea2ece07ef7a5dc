import WorldScript.Proofs.Machine.Chronicle
import WorldScript.Proofs.Script.WellFormed

/-! # Limits of a call

All instructions of a call share one budget: those of the handler, of the functions that it calls, and of all
handlers that run while states change.  Likewise for the initializers of a new machine.  The only thing
asked of the code is that the states and the host functions that it names exist.
-/

namespace WorldScript

def Instr.InRange (w : World) : Instr Nat → Prop
  | .call (.host id) _ => id < w.registry.functions.size
  | .changeState index => index < w.program.states.length
  | _ => True

def Chunk.InRange (w : World) (c : Chunk) : Prop := ∀ i ∈ c.code, i.InRange w

structure World.InRange (w : World) : Prop where
  globals : ∀ g ∈ w.program.globals, g.init.InRange w
  functions : ∀ f ∈ w.program.functions, f.code.InRange w
  handlers : ∀ s ∈ w.program.states, ∀ h ∈ s.handlers, h.code.InRange w

def executedCount (log : List Happening) : Nat := log.countP Happening.isExecution

@[simp] theorem executedCount_append (log more : List Happening) :
    executedCount (log ++ more) = executedCount log + executedCount more := List.countP_append

@[simp] theorem executedCount_begins (state : Nat) (h : Handler Chunk) (log : List Happening) :
    executedCount (.begins state h :: log) = executedCount log :=
      List.countP_cons_of_neg (by simp [Happening.isExecution])

@[simp] theorem executedCount_ends (visit : Visit) : executedCount [.ends visit] = 0 := rfl

def Happening.WithinLimits (w : World) : Happening → Prop
  | .begins state _ => state < w.program.states.length
  | .executes i before after => i.InRange w ∧ before ≤ maxCallDepth ∧ after ≤ maxCallDepth
  | .ends visit => visit.state < w.program.states.length
  | .enters state => state < w.program.states.length

structure Config.Bounded (w : World) (c : Config) : Prop where
  active : c.active.chunk.InRange w
  callers : ∀ q ∈ c.callers, q.caller.chunk.InRange w
  depth : c.callers.length ≤ maxCallDepth

section

variable {w : World} {c d : Config} {i : Instr Nat}

theorem Pending.resume_chunk (p : Pending) (value : Option Value) :
    (p.resume value).chunk = p.caller.chunk := by
  unfold resume
  split <;> rfl

theorem Config.Bounded.step (hw : w.InRange) (h : c.Bounded w) (ho : Outcome w c i (.next d)) :
    d.Bounded w := by
  cases ho with
  | stay hd =>
    refine ⟨?_, ?_, ?_⟩
    · rw [hd.chunk]
      exact h.active
    · rw [hd.callers]
      exact h.callers
    · rw [hd.callers]
      exact h.depth
  | @call index count f d a he hf hd hdepth hchunk hlocals =>
    refine ⟨?_, fun q hq => ?_, ?_⟩
    · rw [hchunk]
      exact hw.functions f (List.mem_of_getElem? hf)
    · rcases List.mem_cons.mp hq with rfl | hq
      · rw [hd.chunk]
        exact h.active
      · exact h.callers q (hd.callers ▸ hq)
    · rw [List.length_cons, hd.callers]
      exact hdepth
  | @resume d p rest value hd hcallers =>
    rw [hd.callers] at hcallers
    have hrest : ∀ q ∈ rest, q ∈ c.callers := fun q hq => hcallers ▸ List.mem_cons_of_mem p hq
    refine ⟨?_, fun q hq => h.callers q (hrest q hq), ?_⟩
    · rw [Pending.resume_chunk]
      exact h.callers p (hcallers ▸ List.mem_cons_self)
    · have hdepth := h.depth
      rw [hcallers, List.length_cons] at hdepth
      exact Nat.le_of_succ_le hdepth

def Ready.Bounded (w : World) : Ready → Prop
  | .ended ending _ => ∀ target, ending.exit.request? ≠ some target
  | .instr i c => c.Bounded w ∧ i.InRange w

theorem settle_bounded {store : Store} {a : Activation} {callers : List Pending}
    (h : Config.Bounded w ⟨store, a, callers⟩) : (settle store a callers).Bounded w := by
  refine settle_rule (I := Config.Bounded w) ?_ ?_ ?_ h
  · exact fun _ _ target ht => by cases ht
  · intro _ q rest h
    refine ⟨?_, fun r hr => h.callers r (List.mem_cons_of_mem q hr), Nat.le_of_succ_le h.depth⟩
    rw [Pending.resume_chunk]
    exact h.callers q List.mem_cons_self
  · exact fun _ _ _ h hi => ⟨⟨h.active, h.callers, h.depth⟩, h.active _ (Activation.mem_of_fetch? hi)⟩

/-- Each instruction takes one from the budget. -/
theorem executions_length (w : World) (budget : Nat) (c : Config) :
    (executions w budget c).length + (run w budget c).budget = budget := by
  induction budget generalizing c with
  | zero =>
    unfold executions run
    cases settle c.store c.active c.callers <;> rfl
  | succ left ih =>
    rw [executions_succ]
    unfold run
    cases settle c.store c.active c.callers with
    | ended ending store => simp
    | instr i ready =>
      cases he : ready.execute w i with
      | next d =>
        have hlength := ih d
        simp only [he, List.length_cons]
        omega
      | done ending store => simp only [he, List.length_singleton, Nat.add_comm]
      | fault f store => simp only [he, List.length_singleton, Nat.add_comm]

theorem executions_within (hw : w.InRange) (hc : c.Bounded w) (budget : Nat) :
    ∀ e ∈ executions w budget c, e.WithinLimits w := by
  intro e he
  have hnext (i : Instr Nat) (ready d : Config) (hready : (Ready.instr i ready).Bounded w)
      (he : ready.execute w i = .next d) : d.Bounded w :=
        hready.1.step hw (he ▸ Config.execute_outcome w ready i)
  obtain ⟨d, hd, i, ready, hs, after, hafter, rfl⟩ := mem_executions he
  have hready := settle_bounded (trail_rule (fun _ => settle_bounded) hnext hc d hd)
  rw [hs] at hready
  refine ⟨hready.2, hready.1.depth, ?_⟩
  rcases hafter with rfl | hstep
  · exact hready.1.depth
  · exact (hnext i ready after hready hstep).depth

/-- A state that the end of a run asks for exists. -/
theorem run_request (hw : w.InRange) (hc : c.Bounded w) {budget : Nat} {ending : Ending} {target : Nat}
    (h : (run w budget c).outcome = .ok ending) (ht : ending.exit.request? = some target) :
    target < w.program.states.length := by
  refine run_rule (R := fun r => r.outcome = .ok ending → target < w.program.states.length)
    (fun _ => settle_bounded) ?_ ?_ ?_ ?_ ?_ hc h
  · rintro _ _ _ hready ⟨⟩
    exact absurd ht (hready target)
  · rintro _ _ _ ⟨⟩
  · exact fun i ready d hready he => hready.1.step hw (he ▸ Config.execute_outcome w ready i)
  · rintro i ready _ store _ ⟨-, hi⟩ he ⟨⟩
    have hout := Config.execute_outcome w ready i
    rw [he] at hout
    cases hout with
    | done _ hexit =>
      have hlast : ending.exit = .changeState target := by
        cases hx : ending.exit with
        | ret value => simp [hx, Exit.request?] at ht
        | changeState index => simpa [hx, Exit.request?] using ht
      rw [hexit target hlast] at hi
      exact hi
  · rintro _ _ _ _ _ _ _ ⟨⟩

end

namespace Machine

variable {w : World} {m : Machine} {chunk : Chunk} {args : List Value}

theorem chunkExecutions_length (w : World) (chunk : Chunk) (args : List Value) (m : Machine) :
    (chunkExecutions w chunk args m).length + (chunkRun w chunk args m).budget = m.budget := by
  unfold chunkExecutions chunkRun
  cases Activation.enter chunk args with
  | ok a => exact executions_length w m.budget _
  | error f => simp

/-- A chunk starts with no callers. -/
theorem enter_bounded (hc : chunk.InRange w) {a : Activation} (h : Activation.enter chunk args = .ok a)
    (store : Store) : Config.Bounded w ⟨store, a, []⟩ := by
  refine ⟨?_, by simp, Nat.zero_le _⟩
  rw [(Activation.enter_ok h).1]
  exact hc

theorem chunkExecutions_within (hw : w.InRange) (hc : chunk.InRange w) (args : List Value) (m : Machine) :
    ∀ e ∈ chunkExecutions w chunk args m, e.WithinLimits w := by
  unfold chunkExecutions
  cases henter : Activation.enter chunk args with
  | ok a => exact executions_within hw (enter_bounded hc henter m.store) m.budget
  | error f => simp

theorem executedCount_chunkExecutions (w : World) (chunk : Chunk) (args : List Value) (m : Machine) :
    executedCount (chunkExecutions w chunk args m) + (chunkRun w chunk args m).budget = m.budget := by
  have hall : executedCount (chunkExecutions w chunk args m) = (chunkExecutions w chunk args m).length :=
    List.countP_eq_length.mpr (chunkExecutions_all w chunk args m)
  rw [hall]
  exact chunkExecutions_length w chunk args m

theorem chunkRun_request (hw : w.InRange) (hc : chunk.InRange w) {ending : Ending} {target : Nat}
    (h : (chunkRun w chunk args m).outcome = .ok ending) (ht : ending.exit.request? = some target) :
    target < w.program.states.length := by
  unfold chunkRun at h
  cases henter : Activation.enter chunk args with
  | ok a =>
    simp only [henter] at h
    exact run_request hw (enter_bounded hc henter m.store) h ht
  | error f => simp [henter] at h

theorem handler?_inRange (hw : w.InRange) {state : Nat} {event : String} {h : Handler Chunk}
    (hh : handler? w state event = some h) : h.code.InRange w := by
  obtain ⟨s, hs, hf⟩ := Option.bind_eq_some_iff.mp hh
  exact hw.handlers s (List.mem_of_getElem? hs) h (List.mem_of_find?_eq_some hf)

end Machine

namespace Chronicle

/-- Each instruction takes one from the budget, nothing leaves the limits, and a call fails over its budget
only when that is used up. -/
def limits (w : World) : Observation Happening where
  Along m log after := executedCount log + after.budget = m.budget ∧
    (m.state < w.program.states.length → (∀ e ∈ log, e.WithinLimits w) ∧
      after.state < w.program.states.length)
  Fails f _ after := f = .instructionLimit → after.budget = 0
  refl m := ⟨Nat.zero_add _, fun hm => ⟨by simp, hm⟩⟩
  trans := by
    rintro m mid last log more ⟨hcount, hlog⟩ ⟨hcount', hmore⟩
    refine ⟨?_, fun hm => ?_⟩
    · rw [executedCount_append]
      omega
    · obtain ⟨hall, hmid⟩ := hlog hm
      obtain ⟨hall', hlast⟩ := hmore hmid
      exact ⟨List.forall_mem_append.mpr ⟨hall, hall'⟩, hlast⟩
  append := fun _ _ _ _ h => h

variable {w : World}

/-- A run that fails over its budget has used it up. -/
theorem limits_fails {chunk : Chunk} {args : List Value} {m : Machine} {f : Fault} (log : List Happening)
    (h : (Machine.chunkRun w chunk args m).outcome = .error f) :
    (limits w).Fails f log (m.afterRun (Machine.chunkRun w chunk args m)) := by
  rintro rfl
  exact ((Machine.chunkRun_error h).resolve_left Fault.not_ofCode_instructionLimit).2

theorem limits_covers (hw : w.InRange) : (limits w).Covers (.happenings w) w (fun _ => True)
    (· < w.program.states.length) fun h _ => h.code.InRange w where
  handler := by
    intro h args hrange
    have hcount := Machine.executedCount_chunkExecutions w h.code args
    have hwithin := Machine.chunkExecutions_within hw hrange args
    refine .runHandler (fun m exit after _ hr => ?_) fun m f after _ hr => ?_
    · obtain ⟨ending, hending, rfl, rfl⟩ := Machine.runHandler_ok hr
      refine ⟨⟨?_, fun hm => ⟨?_, hm⟩⟩, trivial, fun target ht => ?_⟩
      · rw [executedCount_append, Reporter.happenings, executedCount_begins, executedCount_ends]
        exact hcount m
      · exact List.forall_mem_append.mpr
          ⟨List.forall_mem_cons.mpr ⟨hm, hwithin m⟩, List.forall_mem_singleton.mpr hm⟩
      · exact Machine.chunkRun_request hw hrange hending ht
    · obtain ⟨hfault, rfl⟩ := Machine.runHandler_error hr
      refine ⟨⟨?_, fun hm => ⟨List.forall_mem_cons.mpr ⟨hm, hwithin m⟩, hm⟩⟩, limits_fails _ hfault⟩
      rw [Reporter.happenings, executedCount_begins]
      exact hcount m
  takes hh := Machine.handler?_inRange hw hh
  enters ht m _ := ⟨⟨Nat.zero_add _, fun _ => ⟨List.forall_mem_singleton.mpr ht, ht⟩⟩, trivial⟩
  limit m _ h := by cases h

/-- A first value takes what its initializer takes. -/
theorem firstValue_limits (hw : w.InRange) {g : GlobalSlot Chunk} (hg : g.init.InRange w) :
    Observes (limits w) (fun _ => True) (firstValue (.happenings w) w g) fun _ _ => True := by
  have hcount := Machine.executedCount_chunkExecutions w g.init []
  have hwithin := Machine.chunkExecutions_within hw hg []
  refine .firstValue (fun m after _ h => ?_) fun m f after _ h => ?_
  · obtain ⟨ending, -, rfl⟩ := Machine.firstValues_ok h
    exact ⟨⟨hcount m, fun hm => ⟨hwithin m, hm⟩⟩, trivial⟩
  · obtain ⟨hfault, rfl⟩ := Machine.firstValues_error h
    exact ⟨⟨hcount m, fun hm => ⟨hwithin m, hm⟩⟩, limits_fails _ hfault⟩

theorem firstValues_limits (hw : w.InRange) {globals : List (GlobalSlot Chunk)}
    (hg : ∀ g ∈ globals, g.init.InRange w) :
    Observes (limits w) (fun _ => True) (firstValues (.happenings w) w globals) fun _ _ => True := by
  induction globals with
  | nil => exact .pure fun _ h => h
  | cons g rest ih =>
    refine (firstValue_limits hw (hg g List.mem_cons_self)).bind fun _ => ?_
    exact ih fun g' hg' => hg g' (List.mem_cons_of_mem g hg')

/-- A whole budget is what instructions have taken and what is left. -/
theorem ofCreation_limits (hw : w.InRange) (host : Host) :
    executedCount (ofCreation w host).2 ≤ maxInstructions ∧ (∀ e ∈ (ofCreation w host).2, e.WithinLimits w) ∧
      (Machine.create w host = .error .instructionLimit →
        executedCount (ofCreation w host).2 = maxInstructions) ∧
      ∀ m, Machine.create w host = .ok m → m.state < w.program.states.length := by
  rw [← ofCreation_fst]
  unfold ofCreation recordCreation
  cases hs : w.program.stateIndex? "default" with
  | none =>
    dsimp only
    exact ⟨Nat.zero_le _, by simp, by simp, by simp⟩
  | some state =>
    have hstate : state < w.program.states.length := (List.findIdx?_eq_some_iff_getElem.mp hs).1
    have hrecord :=
      (firstValues_limits hw hw.globals).record (m := ⟨⟨#[], host, 0.0⟩, state, [], maxInstructions⟩) trivial
    dsimp only
    generalize record (firstValues (.happenings w) w w.program.globals)
      ⟨⟨#[], host, 0.0⟩, state, [], maxInstructions⟩ = told at hrecord ⊢
    obtain ⟨⟨hcount, hwithin⟩, -, hfails⟩ := hrecord
    obtain ⟨hall, hafter⟩ := hwithin hstate
    have htotal : executedCount told.2 + told.1.2.budget = maxInstructions := hcount
    refine ⟨by omega, hall, ?_, ?_⟩
    · intro h
      cases hr : told.1.1 with
      | ok a => simp [hr, Except.map] at h
      | error f =>
        have hf : f = .instructionLimit := by simpa [hr, Except.map] using h
        have hleft : told.1.2.budget = 0 := hfails f hr hf
        omega
    · intro m h
      obtain ⟨a, -, rfl⟩ := map_ok.mp h
      exact hafter

end Chronicle

theorem Program.WellFormed.inRange {p : Program Chunk} {registry : Registry} (h : p.WellFormed registry) :
    World.InRange ⟨p, registry⟩ := by
  have hknown (event : Bool) (chunk : Chunk) (hc : p.WellFormedChunk registry event chunk) :
      chunk.InRange ⟨p, registry⟩ := by
    intro i hi
    have hi := hc.known i hi
    cases i with
    | call callee count =>
      cases callee with
      | host id =>
        obtain ⟨f, hf, -⟩ := hi
        exact (Array.getElem?_eq_some_iff.mp hf).1
      | script index => trivial
    | changeState index => exact hi.2
    | _ => trivial
  exact ⟨fun g hg => hknown false _ (h.globals g hg), fun f hf => hknown false _ (h.functions f hf),
    fun s hs handler hh => hknown true _ (h.handlers s hs handler hh)⟩

/-- Where code names existing states and host functions, creation and every call of a machine in an
existing state carry out at most `maxInstructions` instructions in all.  None of them names what does not
exist or has more than `maxCallDepth` calls open before or after it.  The state is one that exists, and
the budget is reported only when it is used up. -/
theorem Machine.calls_within_limits {w : World} (hw : w.InRange) :
    (∀ host, (Chronicle.ofCreation w host).1 = create w host ∧
      executedCount (Chronicle.ofCreation w host).2 ≤ maxInstructions ∧
      (∀ e ∈ (Chronicle.ofCreation w host).2, e.WithinLimits w) ∧
      (create w host = .error .instructionLimit →
        executedCount (Chronicle.ofCreation w host).2 = maxInstructions) ∧
      ∀ m, create w host = .ok m → m.state < w.program.states.length) ∧
    ∀ (call : Call) (m : Machine), m.state < w.program.states.length →
      (Chronicle.ofCall w call m).1 = m.call w call ∧
      executedCount (Chronicle.ofCall w call m).2 ≤ maxInstructions ∧
      (∀ e ∈ (Chronicle.ofCall w call m).2, e.WithinLimits w) ∧
      ((m.call w call).1 = .error .instructionLimit →
        executedCount (Chronicle.ofCall w call m).2 = maxInstructions) ∧
      (m.call w call).2.state < w.program.states.length := by
  refine ⟨fun host => ⟨Chronicle.ofCreation_fst w host, Chronicle.ofCreation_limits hw host⟩,
    fun call m hm => ?_⟩
  obtain ⟨⟨hcount, hwithin⟩, -, hfails⟩ := (Chronicle.limits_covers hw).recordCall call m trivial
    (fun _ hh _ => handler?_inRange hw hh) fun _ _ _ h => by cases h
  obtain ⟨hall, hafter⟩ := hwithin hm
  have htotal : executedCount (Chronicle.ofCall w call m).2 + (m.call w call).2.budget = maxInstructions :=
    hcount
  refine ⟨Chronicle.ofCall_fst w call m, by omega, hall, fun h => ?_, hafter⟩
  have hleft : (m.call w call).2.budget = 0 := hfails _ h rfl
  omega

namespace Sample

def endless : String := "integer f() { return f(); } default { state_entry() { f(); } }"

theorem endless_fails :
    ∃ p m, Script.compile registry options [] endless = .ok p ∧
    Machine.create ⟨p, registry⟩ (.named "sample") = .ok m ∧
      (m.call ⟨p, registry⟩ .start).1 = .error .callDepth := by
  have hs : endless.toList = _ := String.toList_ofList
  obtain ⟨p, m, hp, hm, h⟩ := exists_machine registry hs (by decide +kernel) (fun p m =>
    match (m.call ⟨p, registry⟩ .start).1 with
    | .ok _ => false
    | .error f => decide (f = .callDepth)) (by decide +kernel)
  refine ⟨p, m, hp, hm, ?_⟩
  cases hr : (m.call ⟨p, registry⟩ .start).1 with
  | ok a => simp [hr] at h
  | error f => simpa [hr] using h

end Sample

/-- The function that calls itself is stopped by the number of its callers, within the budget. -/
theorem Machine.endless_within_limits :
    ∃ p m, Script.compile Sample.registry Sample.options [] Sample.endless = .ok p ∧
    World.InRange ⟨p, Sample.registry⟩ ∧ create ⟨p, Sample.registry⟩ (.named "sample") = .ok m ∧
    m.state < p.states.length ∧ (m.call ⟨p, Sample.registry⟩ .start).1 = .error .callDepth ∧
    executedCount (Chronicle.ofCall ⟨p, Sample.registry⟩ .start m).2 ≤ maxInstructions ∧
    ∀ e ∈ (Chronicle.ofCall ⟨p, Sample.registry⟩ .start m).2, e.WithinLimits ⟨p, Sample.registry⟩ := by
  obtain ⟨p, m, hp, hm, hfault⟩ := Sample.endless_fails
  have hw : World.InRange ⟨p, Sample.registry⟩ := (Script.compile_wellFormed Sample.registry_built hp).inRange
  obtain ⟨hcreate, hcall⟩ := calls_within_limits hw
  have hstate := (hcreate (.named "sample")).2.2.2.2 m hm
  obtain ⟨-, hcount, hall, -⟩ := hcall .start m hstate
  exact ⟨p, m, hp, hw, hm, hstate, hfault, hcount, hall⟩

end WorldScript
