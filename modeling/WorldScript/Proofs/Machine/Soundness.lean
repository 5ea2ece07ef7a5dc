import WorldScript.Proofs.Machine.Chronicle

/-! # Soundness of whole runs

A machine that was created from a compiled script keeps the types of all slots, whatever it is asked to
do and however its calls end.  What can go wrong in a call is what types cannot rule out.
-/

namespace WorldScript

variable {w : World}

structure Config.SlotsTyped (p : Program Chunk) (c : Config) : Prop where
  globals : typesOf c.store.globals.toList = p.globals.map GlobalSlot.ty
  active : c.active.SlotsTyped
  callers : ∀ q ∈ c.callers, q.caller.SlotsTyped

theorem Waiting.slotsTyped {outer kind : BodyKind} {callers : List Pending}
    (h : Waiting w outer kind callers) : ∀ q ∈ callers, q.caller.SlotsTyped := by
  induction callers generalizing kind with
  | nil => simp
  | cons p rest ih =>
    obtain ⟨-, callerKind, T, hcaller, hrest⟩ := h
    intro q hq
    rcases List.mem_cons.mp hq with rfl | hq
    · exact hcaller.slots
    · exact ih hrest q hq

theorem Config.Typed.slotsTyped {outer : BodyKind} {c : Config}
    (h : c.Typed w (w.program.globals.map GlobalSlot.ty) outer) : c.SlotsTyped w.program := by
  obtain ⟨hg, kind, T, hactive, hcallers⟩ := h
  exact ⟨hg, hactive.slots, hcallers.slotsTyped⟩

namespace Machine

def Holds (G : List Ty) (m : Machine) : Prop := typesOf m.store.globals.toList = G

variable {w : World} {G : List Ty} {m : Machine} {args : List Value} {event : String}

def Stops (w : World) (G : List Ty) (f : Fault) : Prop := f.OfRun w G ∨ f = .stateChangeLimit

theorem accepted_nil (params : List Param) : Accepted (params.take ([] : List Value).length) [] := .nil

/-- Well-typed code goes through well-typed configurations to a well-typed end. -/
theorem chunkRun_typed (hw : w.Sound G) {chunk : Chunk} {kind : BodyKind} {params : List Param}
    (hc : w.program.BodyTyped w.registry kind params chunk) (ha : Accepted (params.take args.length) args)
    (hm : m.Holds G) :
    (chunkRun w chunk args m).Typed w G kind ∧ ∀ d ∈ chunkTrail w chunk args m, d.Typed w G kind := by
  obtain ⟨hp, T, hT⟩ := hc
  obtain ⟨a, henter, htyped⟩ := enter_typed hT hp ha
  have hstart : Config.Typed w G kind ⟨m.store, a, []⟩ := ⟨hm, kind, T, htyped, rfl⟩
  unfold chunkRun chunkTrail
  rw [henter]
  refine ⟨run_typed hw hstart, trail_rule (fun _ => settle_typed) (fun i c d hc he => ?_) hstart⟩
  have hstep := execute_typed hw hc
  rwa [he] at hstep

/-- A handler that is found belongs to the program. -/
theorem handler?_typed (hw : w.Sound G) {state : Nat} {h : Handler Chunk}
    (hh : handler? w state event = some h) : w.program.BodyTyped w.registry .event h.params h.code := by
  obtain ⟨s, hs, hf⟩ := Option.bind_eq_some_iff.mp hh
  exact hw.program.handlers s (List.mem_of_getElem? hs) h (List.mem_of_find?_eq_some hf)

structure Takes (w : World) (h : Handler Chunk) (args : List Value) : Prop where
  typed : w.program.BodyTyped w.registry .event h.params h.code
  accepted : Accepted (h.params.take args.length) args

/-- Configurations are well typed, and what stops a call is in `Stops` or in `E`. -/
theorem configurations_typed (hw : w.Sound G) (E : Fault → Prop) :
    (Chronicle.Observation.always (Config.Typed w G .event) fun f m => m.Holds G ∧ (Stops w G f ∨ E f)).Covers
      (.configurations w) w (Holds G) (fun _ => True) (Takes w) where
  handler := by
    intro h args ht
    refine .runHandler (fun m exit after hm hr => ?_) fun m f after hm hr => ?_
    · obtain ⟨ending, ho, -, rfl⟩ := runHandler_ok hr
      obtain ⟨hrun, htrail⟩ := chunkRun_typed hw ht.typed ht.accepted hm
      exact ⟨List.forall_mem_append.mpr ⟨htrail, List.forall_mem_nil _⟩, hrun.globals, fun _ _ => trivial⟩
    · obtain ⟨ho, rfl⟩ := runHandler_error hr
      obtain ⟨hrun, htrail⟩ := chunkRun_typed hw ht.typed ht.accepted hm
      exact ⟨htrail, hrun.globals, .inl (.inl (hrun.fault f ho))⟩
  takes hh := ⟨handler?_typed hw hh, accepted_nil _⟩
  enters _ _ hm := ⟨List.forall_mem_nil _, hm⟩
  limit _ hm := ⟨hm, .inl (.inr rfl)⟩

def callTrail (w : World) (call : Call) (m : Machine) : List Config :=
  (Chronicle.recordCall (.configurations w) w call m).2

def startTrail (w : World) (m : Machine) : List Config := callTrail w .start m

def dispatchTrail (w : World) (event : String) (args : List Value) (m : Machine) : List Config :=
  callTrail w (.dispatch event args) m

def Misfits (w : World) (call : Call) (m : Machine) (f : Fault) : Prop :=
  ∃ h, handler? w m.state call.event = some h ∧ ¬call.Fits h ∧
    f = .arity call.event h.params.length call.args.length

theorem call_safe (hw : w.Sound G) (hm : m.Holds G) (call : Call)
    (ha : ∀ h, handler? w m.state call.event = some h → call.Fits h →
      Accepted (h.params.take call.args.length) call.args) :
    (m.call w call).2.Holds G ∧ (∀ d ∈ callTrail w call m, d.Typed w G .event) ∧
      ∀ f, (m.call w call).1 = .error f → Stops w G f ∨ Misfits w call m f := by
  have hcovers := configurations_typed hw (Misfits w call m)
  obtain ⟨htrail, hok, herror⟩ := hcovers.recordCall call m hm
    (fun h hh hf => ⟨handler?_typed hw hh, ha h hh hf⟩) fun h hh hf => ⟨hm, .inr ⟨h, hh, hf, rfl⟩⟩
  refine ⟨?_, htrail, fun f hf => (herror f hf).2⟩
  cases hr : (m.call w call).1 with
  | ok handled => exact hok handled hr
  | error f => exact (herror f hr).1

/-- A variable gets a first value of its type. -/
theorem firstValue_holds (hw : w.Sound G) {g : GlobalSlot Chunk} (hg : g ∈ w.program.globals)
    {after : Machine} (hm : m.Holds G) (h : firstValues w [g] m = .ok () after) :
    after.Holds (G ++ [g.ty]) := by
  obtain ⟨ending, ho, rfl⟩ := firstValues_ok h
  obtain ⟨hrun, -⟩ := chunkRun_typed hw (hw.program.globals g hg) (accepted_nil []) hm
  have hexit := hrun.ending ending ho
  simp only [Holds, afterFirstValue, typesOf, Array.toList_push, List.map_append, List.map_cons, List.map_nil]
  refine congrArg₂ (fun types ty => types ++ [ty]) hrun.globals ?_
  split
  · rename_i v hv
    rw [hv] at hexit
    have hty : some g.ty = some v.ty := hexit
    rw [Option.some.inj hty, Value.coerce_self]
  · exact Ty.defaultValue_ty g.ty

/-- Variables get their first values one after the other, each of its type. -/
theorem firstValues_holds (hp : w.program.WellTyped w.registry) (hh : ∀ f ∈ w.registry.functions, f.Honest)
    (done rest : List (GlobalSlot Chunk)) (hall : done ++ rest = w.program.globals) {after : Machine}
    (hm : m.Holds (done.map GlobalSlot.ty)) (h : firstValues w rest m = .ok () after) :
    after.Holds (w.program.globals.map GlobalSlot.ty) := by
  induction rest generalizing done m with
  | nil =>
    obtain ⟨-, rfl⟩ := run_pure_ok h
    rw [← hall, List.append_nil]
    exact hm
  | cons g rest ih =>
    have hw : w.Sound (done.map GlobalSlot.ty) := ⟨hp, hh, by simp [← hall]⟩
    have hg : g ∈ w.program.globals := by simp [← hall]
    rw [firstValues_cons] at h
    obtain ⟨_, m₁, h₁, h⟩ := run_bind_ok h
    have hfirst := firstValue_holds hw hg hm h₁
    exact ih (done ++ [g]) (by simp [← hall]) (by simpa using hfirst) h

theorem create_holds (hp : w.program.WellTyped w.registry) (hh : ∀ f ∈ w.registry.functions, f.Honest)
    {host : Host} {m : Machine} (h : create w host = .ok m) :
    m.Holds (w.program.globals.map GlobalSlot.ty) := by
  unfold create at h
  split at h
  · simp at h
  · split at h
    · rename_i hf
      cases h
      exact firstValues_holds hp hh [] _ rfl (m := ⟨⟨#[], host, 0.0⟩, _, [], maxInstructions⟩) rfl hf
    · simp at h

def Accepts (w : World) (event : String) (args : List Value) (m : Machine) : Prop :=
  ∀ h, handler? w m.state event = some h → ∀ q ∈ h.params.zip args, q.1.ty.accepts q.2.ty = true

theorem Accepts.of_types {types : List Ty}
    (h : (handler? w m.state event).map (fun h => h.params.map Param.ty) = some types)
    (ha : ∀ q ∈ types.zip args, q.1.accepts q.2.ty = true) : m.Accepts w event args := by
  intro handler hh q hq
  rw [hh] at h
  obtain rfl := Option.some.inj h
  refine ha (q.1.ty, q.2) ?_
  rw [List.zip_map_left]
  exact List.mem_map_of_mem hq

/-- The machines that calls lead to, however they end.  Between calls the host may change. -/
inductive Reachable (w : World) (host : Host) : Machine → Prop
  | create {m : Machine} (h : create w host = .ok m) : Reachable w host m
  | start {m : Machine} (h : Reachable w host m) : Reachable w host (m.start w).2
  | dispatch {m : Machine} (h : Reachable w host m) {event : String} {args : List Value}
      (ha : m.Accepts w event args) : Reachable w host (m.dispatch w event args).2
  | changeHost {m : Machine} (h : Reachable w host m) (other : Host) :
      Reachable w host { m with store := { m.store with host := other } }

theorem Accepts.accepted {m : Machine} {h : Handler Chunk} (ha : m.Accepts w event args)
    (hh : handler? w m.state event = some h) (hl : args.length = h.params.length) :
    Accepted (h.params.take args.length) args := by
  rw [hl, List.take_length]
  refine List.forall₂_iff_zip.mpr ⟨hl.symm, ?_⟩
  intro q v hmem
  exact ha h hh (q, v) hmem

theorem start_safe (hw : w.Sound G) (hm : m.Holds G) :
    (m.start w).2.Holds G ∧ (∀ f, (m.start w).1 = .error f → Stops w G f) ∧
      ∀ d ∈ startTrail w m, d.Typed w G .event := by
  obtain ⟨hafter, htrail, hfault⟩ := call_safe hw hm .start fun h _ _ => accepted_nil h.params
  refine ⟨hafter, fun f hf => (hfault f ?_).resolve_right ?_, htrail⟩
  · simp [call, hf, Except.map]
  · rintro ⟨h, -, hmisfits, -⟩
    exact hmisfits (.inl rfl)

def WrongArity (w : World) (event : String) (args : List Value) (m : Machine) (f : Fault) : Prop :=
  ∃ h, handler? w m.state event = some h ∧ args.length ≠ h.params.length ∧
    f = .arity event h.params.length args.length

theorem dispatch_safe (hw : w.Sound G) (hm : m.Holds G) (ha : m.Accepts w event args) :
    (m.dispatch w event args).2.Holds G ∧
      (∀ f, (m.dispatch w event args).1 = .error f → Stops w G f ∨ m.WrongArity w event args f) ∧
      ∀ d ∈ dispatchTrail w event args m, d.Typed w G .event := by
  obtain ⟨hafter, htrail, hfault⟩ := call_safe hw hm (.dispatch event args) fun h hh hf =>
    ha.accepted hh (hf.resolve_left Bool.false_ne_true)
  refine ⟨hafter, fun f hf => (hfault f hf).imp_right ?_, htrail⟩
  rintro ⟨h, hh, hmisfits, rfl⟩
  exact ⟨h, hh, fun hl => hmisfits (.inr hl), rfl⟩

/-- However calls end, the variables keep their types. -/
theorem Reachable.holds (hw : w.Sound (w.program.globals.map GlobalSlot.ty)) {host : Host} {m : Machine}
    (h : Reachable w host m) : m.Holds (w.program.globals.map GlobalSlot.ty) := by
  induction h with
  | create h => exact create_holds hw.program hw.honest h
  | start _ ih => exact (start_safe hw ih).1
  | dispatch _ ha ih => exact (dispatch_safe hw ih ha).1
  | changeHost _ other ih => exact ih

end Machine

/-- The faults that a call of a machine can end with, apart from a wrong number of arguments. -/
inductive Fault.OfCall (w : World) : Fault → Prop
  | divisionByZero : OfCall w .divisionByZero
  | callDepth : OfCall w .callDepth
  | instructionLimit : OfCall w .instructionLimit
  | stateChangeLimit : OfCall w .stateChangeLimit
  | host {f : HostFunction} {host : Host} {args : List Value} {problem : HostFault}
      (hf : f ∈ w.registry.functions) (hi : (f.impl host args).1 = .error problem) : OfCall w (.host problem)

theorem Machine.Stops.ofCall {f : Fault} (h : Stops w (w.program.globals.map GlobalSlot.ty) f) :
    f.OfCall w := by
  rcases h with h | rfl
  · cases h with
    | divisionByZero => exact .divisionByZero
    | callDepth => exact .callDepth
    | instructionLimit => exact .instructionLimit
    | host hf hi => exact .host hf hi
    | missing hs hl =>
      -- every variable of the script has a value
      rw [List.length_map] at hs
      omega
  · exact .stateChangeLimit

def Registry.Honest (r : Registry) : Prop := ∀ f ∈ r.functions, f.Honest

/-- In every machine that calls lead to, and in every configuration of a further call, all slots hold values
of their declared types; and a call ends without a fault or with one of the few that types cannot rule out. -/
theorem Machine.calls_sound {registry : Registry} (hb : registry.Built) (hh : registry.Honest)
    {options : CompileOptions} {replacements : Replacements} {source : String} {p : Program Chunk}
    (hp : Script.compile registry options replacements source = .ok p) {host : Host} {m : Machine}
    (hm : Reachable ⟨p, registry⟩ host m) :
    typesOf m.store.globals.toList = p.globals.map GlobalSlot.ty ∧
      (∀ c ∈ startTrail ⟨p, registry⟩ m, c.SlotsTyped p) ∧
      (∀ f, (m.start ⟨p, registry⟩).1 = .error f → f.OfCall ⟨p, registry⟩) ∧
      ∀ event args, m.Accepts ⟨p, registry⟩ event args →
        (∀ c ∈ dispatchTrail ⟨p, registry⟩ event args m, c.SlotsTyped p) ∧
        ∀ f, (m.dispatch ⟨p, registry⟩ event args).1 = .error f →
          f.OfCall ⟨p, registry⟩ ∨ m.WrongArity ⟨p, registry⟩ event args f := by
  have hw : World.Sound ⟨p, registry⟩ (p.globals.map GlobalSlot.ty) :=
    ⟨Script.compile_wellTyped hb hp, hh, List.prefix_rfl⟩
  have hholds := hm.holds hw
  obtain ⟨-, hfault, htrail⟩ := start_safe hw hholds
  refine ⟨hholds, fun c hc => (htrail c hc).slotsTyped, fun f hf => (hfault f hf).ofCall, ?_⟩
  intro event args ha
  obtain ⟨-, hfault, htrail⟩ := dispatch_safe hw hholds ha
  refine ⟨fun c hc => (htrail c hc).slotsTyped, fun f hf => ?_⟩
  rcases hfault f hf with hs | harity
  · exact .inl hs.ofCall
  · exact .inr harity

namespace Sample

theorem registry_functions :
    registry.functions.toList = [{
    id := 0, name := "successor", member := "successor", provider :=
      Builder.hostProvider, params := [.integer]
    returns := some .integer, dialects := .all, group := none, cost := .default, description := none
    impl := successor.impl }] := by
  rw [registry, Registry.ofBuilder_functions]
  with_unfolding_all rfl

theorem registry_honest : registry.Honest := by
  intro f hf
  rw [← Array.mem_toList_iff, registry_functions, List.mem_singleton] at hf
  subst hf
  intro host args ty v ha hr hv
  cases hr
  obtain ⟨u, rest, rfl, hu, hrest⟩ := typesOf_eq_cons ha
  obtain rfl : rest = [] := List.map_eq_nil_iff.mp hrest
  cases u with
  | integer n =>
    cases hv
    rfl
  | long | float | string | key | vector | rotation | list => cases hu

end Sample

theorem Machine.passages_sound :
    ∃ p m, Script.compile Sample.registry Sample.options [] Sample.passages = .ok p ∧
    Machine.create ⟨p, Sample.registry⟩ (.named "sample") = .ok m ∧
    (∀ c ∈ startTrail ⟨p, Sample.registry⟩ m, c.SlotsTyped p) ∧
    (m.start ⟨p, Sample.registry⟩).2.Accepts ⟨p, Sample.registry⟩ "heard" [.integer 5] ∧
    (∀ c ∈ dispatchTrail ⟨p, Sample.registry⟩ "heard" [.integer 5] (m.start ⟨p, Sample.registry⟩).2,
      c.SlotsTyped p) ∧
    (((m.start ⟨p, Sample.registry⟩).2.dispatch ⟨p, Sample.registry⟩ "heard"
      [.integer 5]).2.store.globals.toList.map
      Value.text = ["-60"]) := by
  obtain ⟨p, m, next, last, hp, hm, hnext, hlast, hparams, -, hglobals⟩ := Sample.passages_run
  obtain rfl : (m.start ⟨p, Sample.registry⟩).2 = next := congrArg Prod.snd hnext
  obtain rfl := congrArg Prod.snd hlast
  have haccepts : (m.start ⟨p, Sample.registry⟩).2.Accepts ⟨p, Sample.registry⟩ "heard" [.integer 5] :=
    .of_types hparams (by decide)
  have hcreated := calls_sound Sample.registry_built Sample.registry_honest hp (.create hm)
  have hstarted := calls_sound Sample.registry_built Sample.registry_honest hp (.start (.create hm))
  exact ⟨p, m, hp, hm, hcreated.2.1, haccepts, (hstarted.2.2.2 _ _ haccepts).1, hglobals⟩

end WorldScript
