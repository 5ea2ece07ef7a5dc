import WorldScript.Proofs.Machine.Chronicle

/-! # The order of handlers over changes of state

A reference machine knows the current state only, and is told what each handler asks for.  It says which
handlers run when: those that a state is left and entered with stand around each change.  A machine runs
the handlers of the reference machine as long as its calls come to their ends; and a call that fails
leaves the machine in the state whose handler failed.
-/

namespace WorldScript

def Happening.stateAfter (state : Nat) : Happening → Nat
  | .enters target => target
  | _ => state

def lastEntered (state : Nat) (log : List Happening) : Nat := log.foldl Happening.stateAfter state

namespace Reference

inductive Passes (w : World) (state : Nat) (event : String) : List Visit → Option Nat → Prop
  | absent (h : Machine.handler? w state event = none) : Passes w state event [] none
  | run {h : Handler Chunk} (hh : Machine.handler? w state event = some h) (asks : Option Nat) :
      Passes w state event [⟨state, h, asks⟩] asks

/-- What is done about a request.  One for another state leaves the current state, whatever is asked for
meanwhile, and enters the other one; what that asks for comes next. -/
inductive Settles (w : World) : Nat → Option Nat → List Visit → Nat → Prop
  | quiet (state : Nat) : Settles w state none [] state
  | same (state : Nat) : Settles w state (some state) [] state
  | change {state target last : Nat} {ignored next : Option Nat} {leaving entering rest : List Visit}
      (hne : target ≠ state) (hexit : Passes w state "state_exit" leaving ignored)
      (hentry : Passes w target "state_entry" entering next) (hrest : Settles w target next rest last) :
      Settles w state (some target) (leaving ++ (entering ++ rest)) last

/-- A call runs the handler of the current state and settles what it asks for. -/
inductive Answers (w : World) (state : Nat) (call : Call) : List Visit → Nat → Prop
  | intro {last : Nat} {asks : Option Nat} {first rest : List Visit}
    (hfirst : Passes w state call.event first asks)
      (hrest : Settles w state asks rest last) : Answers w state call (first ++ rest) last

inductive Runs (w : World) : Nat → List Call → List Visit → Nat → Prop
  | nil (state : Nat) : Runs w state [] [] state
  | cons {state next last : Nat} {call : Call} {calls : List Call} {first rest : List Visit}
      (hfirst : Answers w state call first next) (hrest : Runs w next calls rest last) :
      Runs w state (call :: calls) (first ++ rest) last

end Reference

namespace Chronicle

open Reference

section

variable {α β : Type} {w : World}

/-- From the state before, work that comes to its end shows visits, a result and the state after it as in
`P`. -/
def Shows (P : Nat → List Visit → α → Nat → Prop) (x : Telling Happening α) : Prop :=
  ∀ c a d, x c = .ok a d → ∃ log, d.log = c.log ++ log ∧ P c.machine.state (visits log) a d.machine.state

theorem visits_append (log more : List Happening) : visits (log ++ more) = visits log ++ visits more :=
  List.filterMap_append

theorem Shows.pure {P : Nat → List Visit → α → Nat → Prop} {a : α} (h : ∀ s, P s [] a s) :
    Shows P (pure a) := by
  intro c b d hd
  obtain ⟨rfl, rfl⟩ := run_pure_ok hd
  exact ⟨[], by simp, h _⟩

theorem Shows.bind {P : Nat → List Visit → α → Nat → Prop} {R : Nat → List Visit → β → Nat → Prop}
    {x : Telling Happening α} {Q : α → Nat → List Visit → β → Nat → Prop} {f : α → Telling Happening β}
    (hx : Shows P x) (hf : ∀ a, Shows (Q a) (f a))
    (h : ∀ s t u a b first rest, P s first a t → Q a t rest b u → R s (first ++ rest) b u) :
    Shows R (x >>= f) := by
  intro c b d hd
  obtain ⟨a, e, he, hd⟩ := run_bind_ok hd
  obtain ⟨log, hlog, hp⟩ := hx c a e he
  obtain ⟨more, hmore, hq⟩ := hf a e b d hd
  refine ⟨log ++ more, by rw [hmore, hlog, List.append_assoc], ?_⟩
  rw [visits_append]
  exact h _ _ _ a b _ _ hp hq

theorem visits_chunkExecutions (w : World) (chunk : Chunk) (args : List Value) (m : Machine) :
    visits (chunkExecutions w chunk args m) = [] := by
  refine List.filterMap_eq_nil_iff.mpr fun e he => ?_
  have hall := chunkExecutions_all w chunk args m e he
  cases e with
  | executes i before after => rfl
  | begins | ends | enters => cases hall

theorem runHandler_shows (w : World) (h : Handler Chunk) (args : List Value) :
    Shows (fun s vs exit t => vs = [⟨s, h, exit.request?⟩] ∧ t = s)
      (runHandler (.happenings w) w h args) := by
  intro c exit d hd
  rw [runHandler_eq] at hd
  cases hr : Machine.runHandler w h args c.machine with
  | error f m =>
    rw [hr] at hd
    cases hd
  | ok exit m =>
    rw [hr] at hd
    cases hd
    obtain ⟨-, -, -, rfl⟩ := Machine.runHandler_ok hr
    refine ⟨_, rfl, ?_, rfl⟩
    rw [visits_append]
    have hbegins : visits (.begins c.machine.state h :: chunkExecutions w h.code args c.machine) =
        visits (chunkExecutions w h.code args c.machine) := List.filterMap_cons_none rfl
    exact congrArg (· ++ _) (hbegins.trans (visits_chunkExecutions w h.code args c.machine))

theorem leaveState_shows (w : World) :
    Shows (fun s vs _ t => (∃ ignored, Reference.Passes w s "state_exit" vs ignored) ∧ t = s)
      (leaveState (.happenings w) w) := by
  intro c a d hd
  unfold leaveState at hd
  rw [run_get_bind] at hd
  cases hh : Machine.handler? w c.machine.state "state_exit" with
  | none =>
    simp only [hh] at hd
    obtain ⟨-, rfl⟩ := run_pure_ok hd
    exact ⟨[], by simp, ⟨none, .absent hh⟩, rfl⟩
  | some h =>
    simp only [hh] at hd
    obtain ⟨exit, e, he, hd⟩ := run_bind_ok hd
    obtain ⟨-, rfl⟩ := run_pure_ok hd
    obtain ⟨log, hlog, hvisits, hstate⟩ := runHandler_shows w h [] c exit e he
    refine ⟨log, hlog, ⟨exit.request?, ?_⟩, hstate⟩
    rw [hvisits]
    exact .run hh _

theorem arrive_shows (w : World) (target : Nat) :
    Shows (fun _ vs _ t => vs = [] ∧ t = target) (arrive (.happenings w) target) := by
  intro c a d hd
  cases hd
  exact ⟨[.enters target], rfl, rfl, rfl⟩

theorem enterState_shows (w : World) (target : Nat) :
    Shows (fun _ vs next t => Reference.Passes w target "state_entry" vs next ∧ t = target)
      (enterState (.happenings w) w target) := by
  cases hh : Machine.handler? w target "state_entry" with
  | none =>
    have hentry : enterState (.happenings w) w target = arrive (.happenings w) target >>= fun _ =>
        pure none := by simp only [enterState, hh]
    rw [hentry]
    refine (arrive_shows w target).bind (fun _ =>
      .pure (P := fun s vs next t => vs = [] ∧ next = none ∧ t = s) ?_) ?_
    · exact fun s => ⟨rfl, rfl, rfl⟩
    · rintro s t u _ next first rest ⟨rfl, rfl⟩ ⟨rfl, rfl, rfl⟩
      exact ⟨.absent hh, rfl⟩
  | some h =>
    have hentry : enterState (.happenings w) w target = arrive (.happenings w) target >>= fun _ =>
        runHandler (.happenings w) w h [] >>= fun exit => pure exit.request? := by simp only [enterState, hh]
    have hrun : Shows (fun s vs next t => vs = [⟨s, h, next⟩] ∧ t = s)
        (runHandler (.happenings w) w h [] >>= fun exit => pure exit.request?) := by
      refine (runHandler_shows w h []).bind
        (fun exit => .pure (P := fun s vs next t => vs = [] ∧ next = exit.request? ∧ t = s) fun s =>
          ⟨rfl, rfl, rfl⟩) ?_
      rintro s t u exit next first rest ⟨rfl, rfl⟩ ⟨rfl, rfl, rfl⟩
      exact ⟨rfl, rfl⟩
    rw [hentry]
    refine (arrive_shows w target).bind (fun _ => hrun) ?_
    rintro s t u _ next first rest ⟨rfl, rfl⟩ ⟨rfl, rfl⟩
    exact ⟨.run hh next, rfl⟩

/-- The handlers of a change of state are those of the reference machine. -/
theorem changeState_shows (w : World) (count target : Nat) :
    Shows (fun s vs _ t => Settles w s (some target) vs t) (changeState (.happenings w) w count target) := by
  induction count generalizing target with
  | zero => exact fun c a d hd => by cases hd
  | succ count ih =>
    intro c a d hd
    unfold changeState at hd
    rw [run_get_bind] at hd
    split at hd
    · rename_i htarget
      obtain ⟨-, rfl⟩ := run_pure_ok hd
      subst htarget
      exact ⟨[], by simp, .same _⟩
    · rename_i hne
      obtain ⟨_, left, hleft, hd⟩ := run_bind_ok hd
      obtain ⟨next, entered, hentered, hd⟩ := run_bind_ok hd
      obtain ⟨log₁, hlog₁, ⟨ignored, hexit⟩, hstate₁⟩ := leaveState_shows w c _ left hleft
      obtain ⟨log₂, hlog₂, hentry, hstate₂⟩ := enterState_shows w target left next entered hentered
      have hrest :
          ∃ log₃, d.log = entered.log ++ log₃ ∧ Settles w target next (visits log₃) d.machine.state := by
        cases next with
        | none =>
          obtain ⟨-, rfl⟩ := run_pure_ok hd
          exact ⟨[], by simp, hstate₂ ▸ .quiet _⟩
        | some next =>
          obtain ⟨log₃, hlog₃, hsettles⟩ := ih next entered _ d hd
          exact ⟨log₃, hlog₃, hstate₂ ▸ hsettles⟩
      obtain ⟨log₃, hlog₃, hsettles⟩ := hrest
      refine ⟨log₁ ++ (log₂ ++ log₃), by rw [hlog₃, hlog₂, hlog₁]; simp only [List.append_assoc], ?_⟩
      rw [visits_append, visits_append]
      exact .change hne hexit hentry hsettles

theorem handle_shows {h : Handler Chunk} (args : List Value) :
    Shows (fun s vs _ t => ∃ asks rest, vs = ⟨s, h, asks⟩ :: rest ∧ Settles w s asks rest t)
      (handle (.happenings w) w h args) := by
  refine (runHandler_shows w h args).bind (Q := fun exit s vs _ t => Settles w s exit.request? vs t)
    (fun exit => ?_) ?_
  · cases exit with
    | ret value => exact .pure .quiet
    | changeState target => exact changeState_shows w maxStateChanges target
  · rintro s t u exit _ first rest ⟨rfl, rfl⟩ hsettles
    exact ⟨exit.request?, rest, rfl, hsettles⟩

theorem work_shows (w : World) (call : Call) :
    Shows (fun s vs _ t => Answers w s call vs t) (work (.happenings w) w call) := by
  intro c a d hd
  unfold work at hd
  rw [run_get_bind] at hd
  cases hh : Machine.handler? w c.machine.state call.event with
  | none =>
    simp only [hh] at hd
    obtain ⟨-, rfl⟩ := run_pure_ok hd
    exact ⟨[], by simp, .intro (.absent hh) (.quiet _)⟩
  | some h =>
    simp only [hh] at hd
    split at hd
    · obtain ⟨_, e, he, hd⟩ := run_bind_ok hd
      obtain ⟨-, rfl⟩ := run_pure_ok hd
      obtain ⟨log, hlog, asks, rest, hvisits, hsettles⟩ := handle_shows call.args c _ e he
      refine ⟨log, hlog, ?_⟩
      rw [hvisits]
      exact .intro (.run hh asks) hsettles
    · cases hd

end

def BreaksOff (state : Nat) (log : List Happening) : Prop :=
  ∃ before h steps, log = before ++ .begins state h :: steps ∧ ∀ e ∈ steps, e.isExecution = true

/-- The current state is the one that was entered last; where a handler failed, it ran in the current
state. -/
def whereabouts : Observation Happening where
  Along m log after := after.state = lastEntered m.state log
  Fails f log after := BreaksOff after.state log ∨ f = .stateChangeLimit ∨
    ∃ event expected given, f = .arity event expected given
  refl _ := rfl
  trans := by
    intro m mid last log more hlog hmore
    unfold lastEntered at *
    rw [List.foldl_append, ← hlog]
    exact hmore
  append := by
    rintro before f log m (⟨more, h, steps, rfl, hsteps⟩ | hf)
    · exact .inl ⟨before ++ more, h, steps, by rw [List.append_assoc], hsteps⟩
    · exact .inr hf

theorem lastEntered_chunkExecutions (w : World) (chunk : Chunk) (args : List Value) (m : Machine)
    (state : Nat) : lastEntered state (chunkExecutions w chunk args m) = state := by
  have hall := chunkExecutions_all w chunk args m
  generalize chunkExecutions w chunk args m = log at hall
  induction log with
  | nil => rfl
  | cons e rest ih =>
    have he : e.stateAfter state = state := by
      have hexecution := hall e List.mem_cons_self
      cases e with
      | executes i before after => rfl
      | begins | ends | enters => cases hexecution
    unfold lastEntered at ih ⊢
    rw [List.foldl_cons, he]
    exact ih fun e he => hall e (List.mem_cons_of_mem _ he)

theorem whereabouts_covers (w : World) :
    whereabouts.Covers (.happenings w) w (fun _ => True) (fun _ => True) fun _ _ => True where
  handler := by
    intro h args _
    have hexecutions (m : Machine) := lastEntered_chunkExecutions w h.code args m m.state
    refine .runHandler (fun m exit after _ hr => ?_) fun m f after _ hr => ?_
    · obtain ⟨-, -, -, rfl⟩ := Machine.runHandler_ok hr
      refine ⟨?_, trivial, fun _ _ => trivial⟩
      change m.state = List.foldl Happening.stateAfter m.state (chunkExecutions w h.code args m ++ _)
      rw [List.foldl_append]
      exact (hexecutions m).symm
    · obtain ⟨-, rfl⟩ := Machine.runHandler_error hr
      exact ⟨(hexecutions m).symm, .inl ⟨[], h, _, rfl, chunkExecutions_all w h.code args m⟩⟩
  takes _ := trivial
  enters _ _ _ := ⟨rfl, trivial⟩
  limit _ _ := .inr (.inl rfl)

inductive Goes (w : World) : Machine → List Call → List Happening → Machine → Prop
  | nil (m : Machine) : Goes w m [] [] m
  | cons {m next last : Machine} {call : Call} {calls : List Call} {handled : Bool} {log : List Happening}
      (hfirst : m.call w call = (.ok handled, next)) (hrest : Goes w next calls log last) :
      Goes w m (call :: calls) ((ofCall w call m).2 ++ log) last

/-- A call that comes to its end is answered as by the reference machine. -/
theorem ofCall_answers {w : World} {m next : Machine} {call : Call} {handled : Bool}
    (h : m.call w call = (.ok handled, next)) :
    Answers w m.state call (visits (ofCall w call m).2) next.state := by
  have hfst := ofCall_fst w call m
  rw [h] at hfst
  unfold ofCall recordCall record at hfst ⊢
  cases hr : work (.happenings w) w call ⟨m.refreshed, []⟩ with
  | ok a c =>
    rw [hr] at hfst
    obtain ⟨log, hlog, hanswers⟩ := work_shows w call _ a c hr
    have hnext : c.machine = next := congrArg Prod.snd hfst
    have hnil : c.log = log := hlog
    simp only [hnil]
    rw [← hnext]
    exact hanswers
  | error f c =>
    rw [hr] at hfst
    cases hfst

theorem Goes.runs {w : World} {m last : Machine} {calls : List Call} {log : List Happening}
    (h : Goes w m calls log last) : Runs w m.state calls (visits log) last.state := by
  induction h with
  | nil m => exact .nil m.state
  | cons hfirst _ ih =>
    rw [visits_append]
    exact .cons (ofCall_answers hfirst) ih

end Chronicle

/-- As long as calls come to their ends, the handlers that run and the states that they run in are those
of the reference machine, whose state is the current one.  A call that fails after that leaves the
machine in the state that was entered last, and the handler that failed, if one did, ran in it.  What is
told of a call is told of what it does. -/
theorem Machine.calls_bracketed {w : World} {m last : Machine} {calls : List Call} {log : List Happening}
    (h : Chronicle.Goes w m calls log last) :
    Reference.Runs w m.state calls (visits log) last.state ∧
    ∀ call, (Chronicle.ofCall w call last).1 = last.call w call ∧
      ∀ f after, last.call w call = (.error f, after) →
        after.state = lastEntered last.state (Chronicle.ofCall w call last).2 ∧
        (Chronicle.BreaksOff after.state (Chronicle.ofCall w call last).2 ∨ f = .stateChangeLimit ∨
          ∃ event expected given, f = .arity event expected given) := by
  refine ⟨h.runs, fun call => ⟨Chronicle.ofCall_fst w call last, fun f after hcall => ?_⟩⟩
  obtain ⟨halong, -, hfails⟩ := (Chronicle.whereabouts_covers w).recordCall call last trivial
    (fun _ _ _ => trivial) fun _ _ _ => .inr (.inr ⟨_, _, _, rfl⟩)
  rw [hcall] at halong hfails
  exact ⟨halong, hfails f rfl⟩

/-- A start and an event that makes the script change its state, with a handler for leaving and one for
entering. -/
theorem Machine.passages_bracketed : ∃ p m log last,
    Script.compile Sample.registry Sample.options [] Sample.passages = .ok p ∧
    create ⟨p, Sample.registry⟩ (.named "sample") = .ok m ∧
    Chronicle.Goes ⟨p, Sample.registry⟩ m [.start, Sample.heard] log last ∧
    (visits log).map (fun v => (v.state, v.handler.event)) =
      [(0, "state_entry"), (0, "heard"), (0, "state_exit"), (1, "state_entry")] ∧
    Reference.Runs ⟨p, Sample.registry⟩ m.state [.start, Sample.heard] (visits log) last.state := by
  obtain ⟨p, m, next, last, hp, hm, hnext, hlast, -, hvisits, -⟩ := Sample.passages_run
  have hgoes := Chronicle.Goes.cons hnext (.cons hlast (.nil last))
  rw [List.append_nil] at hgoes
  exact ⟨p, m, _, last, hp, hm, hgoes, hvisits, (calls_bracketed hgoes).1⟩

end WorldScript
