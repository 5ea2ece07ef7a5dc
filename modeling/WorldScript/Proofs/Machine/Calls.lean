import WorldScript.Proofs.Machine.Step

/-! # Calls of a machine and their chains of state changes

A machine is started or given an event.  Both run a handler of the current state and follow what it asks
for.  At most `maxStateChanges` states are entered on the way; where the chain is that long, a request made
by the last entry fails, whatever state it is for.
-/

namespace WorldScript

inductive Call where
  | start
  | dispatch (event : String) (args : List Value)

namespace Call

def event : Call → String
  | .start => "state_entry"
  | .dispatch event _ => event

def args : Call → List Value
  | .start => []
  | .dispatch _ args => args

def isStart : Call → Bool
  | .start => true
  | .dispatch .. => false

/-- A handler takes the arguments; at the start they are not looked at. -/
def Fits (call : Call) (h : Handler Chunk) : Prop := call.isStart = true ∨ call.args.length = h.params.length

instance (call : Call) (h : Handler Chunk) : Decidable (call.Fits h) := inferInstanceAs (Decidable (_ ∨ _))

def work (w : World) (call : Call) : Machine.Work Bool := do
  match Machine.handler? w (← get).state call.event with
  | none => return call.isStart
  | some h =>
    if call.Fits h then
      Machine.handle w h call.args
      return true
    else throw (.arity call.event h.params.length call.args.length)

end Call

def Exit.request? : Exit → Option Nat
  | .ret _ => none
  | .changeState index => some index

namespace Machine

def refreshed (m : Machine) : Machine := { m with budget := maxInstructions }

/-- A call by its name.  A start has no result of its own, which is read as `true`. -/
def call (w : World) (m : Machine) : Call → Except Fault Bool × Machine
  | .start => ((m.start w).1.map fun _ => true, (m.start w).2)
  | .dispatch event args => m.dispatch w event args

end Machine

namespace Call

variable {w : World} {m : Machine} {call : Call}

theorem work_absent (hh : Machine.handler? w m.state call.event = none) :
    call.work w m = .ok call.isStart m := by
  unfold work
  rw [run_get_bind]
  simp only [hh]
  rfl

theorem work_fits {h : Handler Chunk} (hh : Machine.handler? w m.state call.event = some h)
    (hf : call.Fits h) : call.work w m = (Machine.handle w h call.args >>= fun _ => pure true) m := by
  unfold work
  rw [run_get_bind]
  simp only [hh, if_pos hf]

theorem work_unfit {h : Handler Chunk} (hh : Machine.handler? w m.state call.event = some h)
    (hf : ¬ call.Fits h) : call.work w m = .error (.arity call.event h.params.length call.args.length) m := by
  unfold work
  rw [run_get_bind]
  simp only [hh, if_neg hf]
  rfl

end Call

namespace Machine

variable {w : World} {m after : Machine}

theorem perform_of_ok {α : Type} {work : Work α} {a : α} (h : work m.refreshed = .ok a after) :
    m.perform work = (.ok a, after) := by
  unfold perform EStateM.run
  rw [show work { m with budget := maxInstructions } = .ok a after from h]

theorem perform_of_error {α : Type} {work : Work α} {f : Fault} (h : work m.refreshed = .error f after) :
    m.perform work = (.error f, after) := by
  unfold perform EStateM.run
  rw [show work { m with budget := maxInstructions } = .error f after from h]

theorem perform_congr {α : Type} {x y : Work α} (h : x m.refreshed = y m.refreshed) :
    m.perform x = m.perform y := by
  cases hx : x m.refreshed with
  | ok a after => rw [perform_of_ok hx, perform_of_ok (h.symm.trans hx)]
  | error f after => rw [perform_of_error hx, perform_of_error (h.symm.trans hx)]

theorem start_eq (w : World) (m : Machine) :
    m.perform (Call.work w .start) = ((m.start w).1.map fun _ => true, (m.start w).2) := by
  unfold start
  cases hh : handler? w m.state "state_entry" with
  | none =>
    have hwork : Call.work w .start m.refreshed = .ok true m.refreshed := Call.work_absent hh
    rw [perform_of_ok hwork]
    rfl
  | some h =>
    have hwork : Call.work w .start m.refreshed = (handle w h [] >>= fun _ => pure true) m.refreshed :=
      Call.work_fits hh (.inl rfl)
    simp only
    cases hr : handle w h [] m.refreshed with
    | ok a after =>
      rw [perform_of_ok hr, perform_of_ok (hwork.trans (run_bind_of_ok hr))]
      rfl
    | error f after =>
      rw [perform_of_error hr, perform_of_error (hwork.trans (run_bind_of_error hr))]
      rfl

theorem dispatch_eq (w : World) (m : Machine) (event : String) (args : List Value) :
    m.perform (Call.work w (.dispatch event args)) = m.dispatch w event args := by
  unfold dispatch
  refine perform_congr ?_
  cases hh : handler? w m.state event with
  | none => exact Call.work_absent hh
  | some h =>
    have hfits : (Call.dispatch event args).Fits h ↔ args.length = h.params.length :=
      by simp [Call.Fits, Call.isStart, Call.args]
    simp only
    split
    · rename_i hl
      exact Call.work_fits hh (hfits.mpr hl)
    · rename_i hl
      exact Call.work_unfit hh (mt hfits.mp hl)

/-- Both kinds of calls are the same work. -/
theorem call_eq (w : World) (m : Machine) (call : Call) : m.call w call = m.perform (call.work w) := by
  cases call with
  | start => exact (start_eq w m).symm
  | dispatch event args => exact (dispatch_eq w m event args).symm

/-- A change to another state; the result is the state that its entry asks for. -/
def change (w : World) (target : Nat) : Work (Option Nat) := do
  leaveState w
  enterState w target

/-- What is asked for after `n` changes to other states, and the machine then; nothing where fewer are asked
for or one of them fails. -/
def follow (w : World) : Nat → Option Nat → Machine → Option (Option Nat × Machine)
  | 0, request, m => some (request, m)
  | _ + 1, none, _ => none
  | n + 1, some target, m =>
    if target = m.state then none
    else match change w target m with
      | .error _ _ => none
      | .ok next entered => follow w n next entered

def pursue (w : World) (count : Nat) : Option Nat → Work Unit
  | none => pure ()
  | some target => changeState w count target

section

variable {count n target : Nat} {request : Option Nat}

theorem pursue_here (w : World) (count : Nat) (m : Machine) :
    pursue w (count + 1) (some m.state) m = .ok () m := by
  change changeState w (count + 1) m.state m = .ok () m
  unfold changeState
  rw [run_get_bind, if_pos rfl]
  rfl

theorem pursue_other (h : target ≠ m.state) :
    pursue w (count + 1) (some target) m = (change w target >>= pursue w count) m := by
  change changeState w (count + 1) target m = _
  conv => lhs; unfold changeState
  rw [run_get_bind, if_neg h, change, bind_assoc]
  refine congrFun (congrArg (leaveState w >>= ·) (funext fun _ => ?_)) m
  refine congrArg (enterState w target >>= ·) (funext fun next => ?_)
  cases next <;> rfl

theorem handle_eq (w : World) (h : Handler Chunk) (args : List Value) :
    handle w h args = runHandler w h args >>= fun exit => pursue w maxStateChanges exit.request? := by
  unfold handle
  congr 1
  funext exit
  cases exit <;> rfl

def Unchained {α : Type} (x : Work α) : Prop := ∀ m after, x m ≠ .error .stateChangeLimit after

namespace Unchained

theorem pure {α : Type} (a : α) : Unchained (Pure.pure a) := fun _ _ h => by cases h

theorem bind {α β : Type} {x : Work α} {f : α → Work β} (hx : Unchained x) (hf : ∀ a, Unchained (f a)) :
    Unchained (x >>= f) := by
  intro m after h
  cases hr : x m with
  | ok a left =>
    rw [run_bind_of_ok hr] at h
    exact hf a left after h
  | error g left =>
    rw [run_bind_of_error hr] at h
    cases h
    exact hx m after hr

theorem get {β : Type} {f : Machine → Work β} (hf : ∀ m, Unchained (f m)) : Unchained (get >>= f) :=
  fun m after => hf m m after

theorem modify (f : Machine → Machine) : Unchained (modify f) := fun _ _ h => by cases h

end Unchained

theorem runHandler_unchained (w : World) (h : Handler Chunk) (args : List Value) :
    Unchained (runHandler w h args) := by
  intro m after hr
  rcases chunkRun_error (runHandler_error hr).1 with hcode | ⟨hlimit, -⟩
  · exact Fault.not_ofCode_stateChangeLimit hcode
  · cases hlimit

theorem leaveState_unchained (w : World) : Unchained (leaveState w) := by
  refine .get fun m => ?_
  cases handler? w m.state "state_exit" with
  | none => exact .pure ()
  | some h => exact (runHandler_unchained w h []).bind fun _ => .pure ()

theorem enterState_unchained (w : World) (target : Nat) : Unchained (enterState w target) := by
  refine .bind (.modify _) fun _ => ?_
  cases handler? w target "state_entry" with
  | none => exact .pure none
  | some h =>
    refine (runHandler_unchained w h []).bind fun exit => ?_
    cases exit with
    | ret value => exact .pure none
    | changeState next => exact .pure (some next)

theorem change_unchained (w : World) (target : Nat) : Unchained (change w target) :=
  (leaveState_unchained w).bind fun _ => enterState_unchained w target

theorem not_pursue_none : ¬ ∃ after, pursue w count none m = .error .stateChangeLimit after := by
  rintro ⟨after, h⟩
  cases h

theorem not_follow_none : ¬ ∃ next last, follow w count none m = some (some next, last) := by
  rintro ⟨next, last, h⟩
  cases count <;> cases h

/-- The limit stops a chain exactly when something is asked for after `count` changes. -/
theorem pursue_limit : (∃ after, pursue w count request m = .error .stateChangeLimit after) ↔
    ∃ next last, follow w count request m = some (some next, last) := by
  induction count generalizing request m with
  | zero =>
    cases request with
    | none => exact iff_of_false not_pursue_none not_follow_none
    | some target => exact ⟨fun _ => ⟨target, m, rfl⟩, fun _ => ⟨m, rfl⟩⟩
  | succ count ih =>
    cases request with
    | none => exact iff_of_false not_pursue_none not_follow_none
    | some target =>
      by_cases htarget : target = m.state
      · subst htarget
        rw [pursue_here]
        simp [follow]
      · rw [pursue_other htarget]
        simp only [follow, if_neg htarget]
        cases hchange : change w target m with
        | error f left =>
          have hf : f ≠ .stateChangeLimit := fun h => change_unchained w target m left (h ▸ hchange)
          rw [run_bind_of_error hchange]
          simp [hf]
        | ok next entered =>
          rw [run_bind_of_ok hchange]
          exact ih

/-- A chain after which nothing is asked for, or only the current state, comes to its end. -/
theorem pursue_quiet {last : Machine} {rest : Option Nat} (h : follow w n request m = some (rest, last))
    (hrest : rest = none ∧ n ≤ count ∨ rest = some last.state ∧ n < count) :
    pursue w count request m = .ok () last := by
  induction n generalizing request m count with
  | zero =>
    cases h
    rcases hrest with ⟨rfl, -⟩ | ⟨rfl, hlt⟩
    · rfl
    · obtain ⟨left, rfl⟩ := Nat.exists_eq_succ_of_ne_zero (Nat.ne_of_gt hlt)
      exact pursue_here w left last
  | succ n ih =>
    obtain ⟨left, rfl⟩ : ∃ left, count = left + 1 := Nat.exists_eq_succ_of_ne_zero (by omega)
    cases request with
    | none => cases h
    | some target =>
      have htarget : target ≠ m.state := by
        intro htarget
        simp [follow, htarget] at h
      simp only [follow, if_neg htarget] at h
      rw [pursue_other htarget]
      cases hchange : change w target m with
      | error f left => simp [hchange] at h
      | ok next entered =>
        simp only [hchange] at h
        rw [run_bind_of_ok hchange]
        refine ih h ?_
        simpa only [Nat.add_le_add_iff_right, Nat.add_lt_add_iff_right] using hrest

end

/-- What is asked for after a call has led to `n` changes to other states, and the machine then. -/
def changes (w : World) (call : Call) (n : Nat) (m : Machine) : Option (Option Nat × Machine) :=
  match handler? w m.state call.event with
  | none => none
  | some h =>
    if call.Fits h then
      match runHandler w h call.args m.refreshed with
      | .error _ _ => none
      | .ok exit started => follow w n exit.request? started
    else none

variable {call : Call}

/-- A call that leads to a chain follows it after its own handler. -/
theorem work_of_changes {n : Nat} {r : Option Nat × Machine} (h : changes w call n m = some r) :
    ∃ request started, (∀ n, changes w call n m = follow w n request started) ∧
      call.work w m.refreshed = (pursue w maxStateChanges request >>= fun _ => pure true) started := by
  cases hh : handler? w m.state call.event with
  | none => simp [changes, hh] at h
  | some handler =>
    by_cases hf : call.Fits handler
    · cases hr : runHandler w handler call.args m.refreshed with
      | error f after => simp [changes, hh, hf, hr] at h
      | ok exit started =>
        refine ⟨exit.request?, started, fun n => by simp only [changes, hh, if_pos hf, hr], ?_⟩
        have hwork := Call.work_fits (m := m.refreshed) hh hf
        rw [hwork, handle_eq, bind_assoc, run_bind_of_ok hr]
    · simp [changes, hh, hf] at h

/-- A call that fails over the length of a chain has led to one. -/
theorem changes_of_work (h : call.work w m.refreshed = .error .stateChangeLimit after) :
    ∃ r, changes w call 0 m = some r := by
  cases hh : handler? w m.state call.event with
  | none =>
    have hwork := Call.work_absent (m := m.refreshed) hh
    rw [hwork] at h
    cases h
  | some handler =>
    by_cases hf : call.Fits handler
    · have hwork := Call.work_fits (m := m.refreshed) hh hf
      rw [hwork, handle_eq, bind_assoc] at h
      cases hr : runHandler w handler call.args m.refreshed with
      | error f left =>
        rw [run_bind_of_error hr] at h
        cases h
        exact (runHandler_unchained w handler call.args m.refreshed after hr).elim
      | ok exit started => exact ⟨(exit.request?, started), by simp only [changes, hh, if_pos hf, hr, follow]⟩
    · have hwork := Call.work_unfit (m := m.refreshed) hh hf
      rw [hwork] at h
      cases h

theorem perform_error {α : Type} {work : Work α} {f : Fault} (h : (m.perform work).1 = .error f) :
    ∃ after, work m.refreshed = .error f after := by
  cases hr : work m.refreshed with
  | ok a after =>
    rw [perform_of_ok hr] at h
    cases h
  | error g after =>
    rw [perform_of_error hr] at h
    cases h
    exact ⟨after, rfl⟩

theorem call_limit : (m.call w call).1 = .error .stateChangeLimit ↔
    ∃ next last, changes w call maxStateChanges m = some (some next, last) := by
  rw [call_eq]
  constructor
  · intro h
    obtain ⟨after, hafter⟩ := perform_error h
    obtain ⟨r, hr⟩ := changes_of_work hafter
    obtain ⟨request, started, hchanges, hwork⟩ := work_of_changes hr
    rw [hwork] at hafter
    rw [hchanges]
    refine pursue_limit.mp ?_
    cases hp : pursue w maxStateChanges request started with
    | ok a left =>
      rw [run_bind_of_ok hp] at hafter
      cases hafter
    | error f left =>
      rw [run_bind_of_error hp] at hafter
      cases hafter
      exact ⟨after, rfl⟩
  · rintro ⟨next, last, h⟩
    obtain ⟨request, started, hchanges, hwork⟩ := work_of_changes h
    rw [hchanges] at h
    obtain ⟨after, hp⟩ := pursue_limit.mpr ⟨next, last, h⟩
    rw [perform_of_error (hwork.trans (run_bind_of_error hp))]

theorem call_quiet {n : Nat} {rest : Option Nat} {last : Machine} (h : changes w call n m = some (rest, last))
    (hrest : rest = none ∧ n ≤ maxStateChanges ∨ rest = some last.state ∧ n < maxStateChanges) :
    m.call w call = (.ok true, last) := by
  obtain ⟨request, started, hchanges, hwork⟩ := work_of_changes h
  rw [hchanges] at h
  rw [call_eq, perform_of_ok (hwork.trans (run_bind_of_ok (pursue_quiet h hrest)))]

/-- A call fails over the length of its chain exactly when the entry of the last state that may be
entered asks for another state, or for its own: the request that leads nowhere counts.  Shorter chains
that end with such a request, and chains up to the limit that end without a request, come to their end.
-/
theorem call_stateChangeLimit (w : World) (m : Machine) (call : Call) :
    ((m.call w call).1 = .error .stateChangeLimit ↔
      (∃ next last, changes w call maxStateChanges m = some (some next, last) ∧ next ≠ last.state) ∨
        ∃ last, changes w call maxStateChanges m = some (some last.state, last)) ∧
    (∀ n last, n ≤ maxStateChanges → changes w call n m = some (none, last) →
      m.call w call = (.ok true, last)) ∧
    ∀ n last, n < maxStateChanges → changes w call n m = some (some last.state, last) →
      m.call w call = (.ok true, last) := by
  refine ⟨?_, fun n last hn h => call_quiet h (.inl ⟨rfl, hn⟩), fun n last hn h =>
    call_quiet h (.inr ⟨rfl, hn⟩)⟩
  rw [call_limit]
  constructor
  · rintro ⟨next, last, h⟩
    by_cases hnext : next = last.state
    · subst hnext
      exact .inr ⟨last, h⟩
    · exact .inl ⟨next, last, h, hnext⟩
  · rintro (⟨next, last, h, -⟩ | ⟨last, h⟩)
    · exact ⟨next, last, h⟩
    · exact ⟨last.state, last, h⟩

end Machine

namespace Sample

/-- A test that the program of a plain script and its machine pass. -/
theorem exists_machine (registry : Registry) {source : String} {chars : List Char}
    (hs : source.toList = chars) (hplain : '#' ∉ chars) (P : Program Chunk → Machine → Bool)
    (h : ((Script.compileChars registry options chars).toOption.any fun p =>
      (Machine.create ⟨p, registry⟩ (.named "sample")).toOption.any (P p)) = true) :
    ∃ p m, Script.compile registry options [] source = .ok p ∧
      Machine.create ⟨p, registry⟩ (.named "sample") = .ok m ∧ P p m = true := by
  obtain ⟨p, hp, h⟩ := ok_of_any h
  obtain ⟨m, hm, hP⟩ := ok_of_any h
  exact ⟨p, m, (Script.compile_of_plain hs hplain registry options).trans hp, hm, hP⟩

/-- A script whose states ask for each other until one of them has been entered often enough to ask for
itself. -/
def pingPong : String :=
  "integer n; default { state_entry() { if (++n > 16) state default; state b; } } state b { state_entry() { ++n; state default; } }"

def pingPongFrom (m : Machine) (count : Int32) : Machine :=
  { m with store := { m.store with globals := #[.integer count] } }

set_option maxRecDepth 1000 in
/-- From its start, the script asks for the current state after as many changes as there may be; with two
of them counted before, after two fewer. -/
theorem pingPong_created : ∃ p m, Script.compile registry options [] pingPong = .ok p ∧
    Machine.create ⟨p, registry⟩ (.named "sample") = .ok m ∧
    (∃ last, Machine.changes ⟨p, registry⟩ .start maxStateChanges m = some (some last.state, last)) ∧
    ∃ last, Machine.changes ⟨p, registry⟩ .start 14 (pingPongFrom m 2) = some (some last.state, last) := by
  have hown (r : Option (Option Nat × Machine)) (hr : (r.any fun r => r.1 == some r.2.state) = true) :
      ∃ last, r = some (some last.state, last) := by
    cases r with
    | none => cases hr
    | some pair =>
      have heq : pair.1 = some pair.2.state := by simpa using hr
      exact ⟨pair.2, by rw [← heq]⟩
  have hs : pingPong.toList = _ := String.toList_ofList
  obtain ⟨p, m, hp, hm, h⟩ := exists_machine registry hs (by decide +kernel) (fun p m =>
    ((Machine.changes ⟨p, registry⟩ .start maxStateChanges m).any fun r => r.1 == some r.2.state) &&
      ((Machine.changes ⟨p, registry⟩ .start 14 (pingPongFrom m 2)).any fun r => r.1 == some r.2.state))
    (by decide +kernel)
  rw [Bool.and_eq_true] at h
  exact ⟨p, m, hp, hm, hown _ h.1, hown _ h.2⟩

end Sample

/-- A chain of fourteen changes whose last entry asks for the state it is in comes to its end. -/
theorem Machine.pingPong_ends :
    ∃ p m last, Script.compile Sample.registry Sample.options [] Sample.pingPong = .ok p ∧
    Machine.create ⟨p, Sample.registry⟩ (.named "sample") = .ok m ∧
    changes ⟨p, Sample.registry⟩ .start 14 (Sample.pingPongFrom m 2) = some (some last.state, last) ∧
    (Sample.pingPongFrom m 2).call ⟨p, Sample.registry⟩ .start = (.ok true, last) := by
  obtain ⟨p, m, hp, hm, -, last, hlast⟩ := Sample.pingPong_created
  have h := call_stateChangeLimit ⟨p, Sample.registry⟩ (Sample.pingPongFrom m 2) .start
  exact ⟨p, m, last, hp, hm, hlast, h.2.2 14 last (by decide) hlast⟩

/-- A chain of as many changes as there may be, whose last entry asks for the state it is in, fails. -/
theorem Machine.pingPong_stopped :
    ∃ p m last, Script.compile Sample.registry Sample.options [] Sample.pingPong = .ok p ∧
    Machine.create ⟨p, Sample.registry⟩ (.named "sample") = .ok m ∧
    changes ⟨p, Sample.registry⟩ .start maxStateChanges m = some (some last.state, last) ∧
    (m.start ⟨p, Sample.registry⟩).1 = .error .stateChangeLimit := by
  obtain ⟨p, m, hp, hm, ⟨last, hlast⟩, -⟩ := Sample.pingPong_created
  refine ⟨p, m, last, hp, hm, hlast, ?_⟩
  have h : (m.start ⟨p, Sample.registry⟩).1.map (fun _ => true) = .error .stateChangeLimit :=
    call_limit.mpr ⟨last.state, last, hlast⟩
  cases hs : (m.start ⟨p, Sample.registry⟩).1 with
  | ok a =>
    rw [hs] at h
    cases h
  | error f =>
    rw [hs] at h
    cases h
    rfl

end WorldScript
