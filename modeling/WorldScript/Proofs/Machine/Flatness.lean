import WorldScript.Proofs.Machine.Soundness
import WorldScript.Proofs.Script.Flatness

/-! # Machines without lists in lists

Lists are made by operators, casts and list displays, and none of them puts a list into a list: a display
has no items that are lists, and a list that takes in another takes in its items.  So there is never a
list in a list, unless the host brings one.
-/

namespace WorldScript

variable {v : Value}

abbrev AllFlat (values : List Value) : Prop := ∀ v ∈ values, v.Flat

def HostFunction.Flat (f : HostFunction) : Prop :=
  ∀ (host : Host) (args : List Value) (v : Value), typesOf args = f.params → AllFlat args →
    (f.impl host args).1 = .ok (some v) → v.Flat

structure Registry.Flat (r : Registry) : Prop where
  constants : r.FlatConstants
  functions : ∀ f ∈ r.functions, f.Flat

def Activation.values (a : Activation) : List Value := a.stack ++ a.locals.toList

def Config.values (c : Config) : List Value :=
  c.store.globals.toList ++ c.active.values ++ c.callers.flatMap fun p => p.caller.values

structure Activation.Flat (a : Activation) : Prop where
  code : a.chunk.Within .flat
  values : AllFlat a.values

structure Config.Flat (c : Config) : Prop where
  globals : AllFlat c.store.globals.toList
  active : c.active.Flat
  callers : ∀ p ∈ c.callers, p.caller.Flat

theorem Config.Flat.values {c : Config} (h : c.Flat) : AllFlat c.values := by
  intro v hv
  rcases List.mem_append.mp hv with hv | hv
  · rcases List.mem_append.mp hv with hv | hv
    · exact h.globals v hv
    · exact h.active.values v hv
  · obtain ⟨p, hp, hv⟩ := List.mem_flatMap.mp hv
    exact (h.callers p hp).values v hv

def Exit.Flat : Exit → Prop
  | .ret (some v) => v.Flat
  | _ => True

structure Ending.Flat (e : Ending) : Prop where
  exit : e.exit.Flat
  locals : AllFlat e.locals.toList

def Transition.Flat : Transition → Prop
  | .next c => c.Flat
  | .done ending store => AllFlat store.globals.toList ∧ ending.Flat
  | .fault _ store => AllFlat store.globals.toList

theorem AllFlat.getElem? {values : Array Value} (h : AllFlat values.toList) {i : Nat}
    (hv : values[i]? = some v) : v.Flat := h v (Array.mem_toList_iff.mpr (Array.mem_of_getElem? hv))

theorem AllFlat.set {values : Array Value} (h : AllFlat values.toList) (hv : v.Flat) (i : Nat) :
    AllFlat (values.setIfInBounds i v).toList := by
  intro u hu
  rw [Array.toList_setIfInBounds] at hu
  rcases List.mem_or_eq_of_mem_set hu with hu | rfl
  · exact h u hu
  · exact hv

structure Frame.Flat (k : Chunk) (cs : List Pending) (F : Frame) : Prop where
  code : k.Within .flat
  globals : AllFlat F.store.globals.toList
  locals : AllFlat F.locals.toList
  callers : ∀ p ∈ cs, p.caller.Flat

section

variable {w : World} {G : List Ty} {outer : BodyKind} {k : Chunk} {n : Nat} {s : List Value}
  {cs : List Pending} {F F' : Frame} {x : Var} {v : Value} {args : List Value} {a : Activation}
  {store : Store} {callers : List Pending} {i : Instr Nat} {c : Config}

theorem Frame.Flat.config (h : F.Flat k cs) (hs : AllFlat s) : (F.config k n s cs).Flat :=
  ⟨h.globals, ⟨h.code, List.forall_mem_append.mpr ⟨hs, h.locals⟩⟩, h.callers⟩

theorem Config.Flat.frame (h : (F.config k n s cs).Flat) : F.Flat k cs ∧ AllFlat s := by
  obtain ⟨hs, hl⟩ := List.forall_mem_append.mp h.active.values
  exact ⟨⟨h.active.code, h.globals, hl, h.callers⟩, hs⟩

theorem Frame.Flat.read (h : F.Flat k cs) (hv : F.read x = .ok v) : v.Flat := by
  unfold Frame.read at hv
  split at hv
  · split at hv
    · rename_i hget
      cases hv
      exact h.locals.getElem? hget
    · cases hv
  · split at hv
    · rename_i hget
      cases hv
      exact h.globals.getElem? hget
    · cases hv

theorem Frame.Flat.write (h : F.Flat k cs) (hv : v.Flat) (hw : F.write x v = .ok F') : F'.Flat k cs := by
  unfold Frame.write at hw
  split at hw
  · split at hw
    · cases hw
      exact ⟨h.code, h.globals, h.locals.set hv _, h.callers⟩
    · cases hw
  · split at hw
    · cases hw
      exact ⟨h.code, h.globals.set hv _, h.locals, h.callers⟩
    · cases hw

theorem Frame.Flat.writeComponent (h : F.Flat k cs) {axis : Axis} (hw : F.writeComponent x axis v = .ok F') :
    F'.Flat k cs := by
  unfold Frame.writeComponent at hw
  split at hw
  · cases hw
  · obtain ⟨old, -, hw⟩ := bind_ok.mp hw
    obtain ⟨new, hnew, hw⟩ := bind_ok.mp hw
    exact h.write (Value.setComponent_flat hnew) hw

theorem ofValue_flat (h : F.Flat k cs) (hs : AllFlat s) {r : Except Fault Value}
    (hr : ∀ v, r = .ok v → v.Flat) : (Transition.ofValue F k n s cs r).Flat := by
  cases r with
  | ok v => exact h.config (List.forall_mem_cons.mpr ⟨hr v rfl, hs⟩)
  | error f => exact h.globals

theorem ofFrame_flat (h : F.Flat k cs) (hs : AllFlat s) {r : Except Fault Frame}
    (hr : ∀ F', r = .ok F' → F'.Flat k cs) : (Transition.ofFrame F k n s cs r).Flat := by
  cases r with
  | ok F' => exact (hr F' rfl).config hs
  | error f => exact h.globals

theorem bind_flat {locals : List Param} {values : List Value} (ha : AllFlat args)
    (h : Activation.bind locals args = .ok values) : AllFlat values := by
  induction args generalizing locals values with
  | nil =>
    have hdefaults : values = locals.map fun l => l.ty.defaultValue := by
      cases locals <;> exact (Except.ok.inj h).symm
    rw [hdefaults]
    intro v hv
    obtain ⟨l, -, rfl⟩ := List.mem_map.mp hv
    exact Value.defaultValue_flat l.ty
  | cons v args ih =>
    cases locals with
    | nil => cases h
    | cons l locals =>
      obtain ⟨rest, hrest, rfl⟩ := map_ok.mp h
      obtain ⟨hv, hargs⟩ := List.forall_mem_cons.mp ha
      exact List.forall_mem_cons.mpr ⟨hv.coerce l.ty, ih hargs hrest⟩

theorem enter_flat {chunk : Chunk} (hc : chunk.Within .flat) (ha : AllFlat args)
    (h : Activation.enter chunk args = .ok a) : a.Flat := by
  obtain ⟨locals, hlocals, rfl⟩ := map_ok.mp h
  exact ⟨hc, by simpa [Activation.values] using bind_flat ha hlocals⟩

theorem resume_flat {p : Pending} {value : Option Value} (hp : p.caller.Flat) (hv : (Exit.ret value).Flat) :
    (p.resume value).Flat := by
  unfold Pending.resume
  split
  · exact hp
  · refine ⟨hp.code, List.forall_mem_cons.mpr ⟨?_, hp.values⟩⟩
    cases value with
    | none => exact Value.defaultValue_flat _
    | some v => exact hv

theorem leave_flat (h : F.Flat k cs) {exit : Exit} (he : exit.Flat) :
    ((F.config k n s cs).leave exit).Flat := by
  cases cs with
  | nil => exact ⟨h.globals, he, h.locals⟩
  | cons p rest =>
    obtain ⟨hp, hrest⟩ := List.forall_mem_cons.mp h.callers
    cases exit with
    | ret value => exact ⟨h.globals, resume_flat hp he, hrest⟩
    | changeState index => exact h.globals

structure World.Flat (w : World) : Prop where
  program : w.program.Within .flat
  functions : ∀ f ∈ w.registry.functions, f.Flat

theorem callHost_flat (hw : w.Flat) (h : F.Flat k cs) (hs : AllFlat s) {f : HostFunction}
    (hf : f ∈ w.registry.functions) (ht : typesOf args = f.params) (ha : AllFlat args) :
    ((F.config k n s cs).callHost f args).Flat := by
  rw [Config.callHost_config]
  split
  · exact h.globals
  · rename_i value host hi
    have hafter : (F.afterHost f host).Flat k cs := ⟨h.code, h.globals, h.locals, h.callers⟩
    refine hafter.config (List.forall_mem_append.mpr ⟨?_, hs⟩)
    intro v hv
    obtain ⟨ty, -, rfl⟩ := Option.map_eq_some_iff.mp (Option.mem_toList.mp hv)
    cases value with
    | none => exact Value.defaultValue_flat ty
    | some u => exact (hw.functions f hf F.store.host args u ht ha (by rw [hi])).coerce ty

theorem callScript_flat (hw : w.Flat) (h : F.Flat k cs) (hs : AllFlat s) {f : ScriptFunction Chunk}
    (hf : f ∈ w.program.functions) (ha : AllFlat args) : ((F.config k n s cs).callScript f args).Flat := by
  unfold Config.callScript
  split
  · exact h.globals
  · split
    · exact h.globals
    · rename_i a henter
      refine ⟨h.globals, enter_flat (hw.program.functions f hf) ha henter, ?_⟩
      exact List.forall_mem_cons.mpr ⟨(h.config (n := n) hs).active, h.callers⟩

theorem call_flat (hw : w.Flat) (h : F.Flat k cs) (hs : AllFlat s) {callee : Callee} {returns : Option Ty}
    (hc : (w.layout k).calleeTy callee = some (typesOf args, returns)) (ha : AllFlat args) :
    ((F.config k n s cs).call w callee args).Flat := by
  cases callee with
  | host id =>
    obtain ⟨f, hf, he⟩ := Option.map_eq_some_iff.mp hc
    have hf : w.registry.functions[id]? = some f := hf
    simp only [Config.call, hf]
    exact callHost_flat hw h hs (Array.mem_of_getElem? hf) (Prod.mk.inj he).1.symm ha
  | script index =>
    obtain ⟨signature, hsig, -⟩ := Option.map_eq_some_iff.mp hc
    obtain ⟨f, hf, rfl⟩ := Option.map_eq_some_iff.mp ((List.getElem?_map ..).symm.trans hsig)
    simp only [Config.call, hf]
    exact callScript_flat hw h hs (List.mem_of_getElem? hf) ha

def Ready.Flat : Ready → Prop
  | .ended ending store => AllFlat store.globals.toList ∧ ending.Flat
  | .instr i c => c.Flat ∧ i.Within .flat

theorem fetch_flat (h : Config.Flat ⟨store, a, callers⟩) (hf : a.fetch? = some i) :
    (Ready.instr i ⟨store, { a with position := a.position + 1 }, callers⟩).Flat := by
  obtain ⟨e, he, rfl⟩ := Option.map_eq_some_iff.mp hf
  have hmem : e ∈ a.chunk.entries.toList := Array.mem_toList_iff.mpr (Array.mem_of_getElem? he)
  exact ⟨⟨h.globals, ⟨h.active.code, h.active.values⟩, h.callers⟩, h.active.code e hmem⟩

theorem settle_flat (h : Config.Flat ⟨store, a, callers⟩) : (settle store a callers).Flat := by
  refine settle_rule (I := Config.Flat) ?_ ?_ (fun _ _ _ => fetch_flat) h
  · exact fun _ h => ⟨h.globals, trivial, (List.forall_mem_append.mp h.active.values).2⟩
  · intro _ p rest h
    obtain ⟨hp, hrest⟩ := List.forall_mem_cons.mp h.callers
    exact ⟨h.globals, resume_flat hp trivial, hrest⟩

theorem spatial_flat {values : List Value} {u : Value} (h : (numbers values).map ofNumbers = .ok u) :
    u.Flat := by
  obtain ⟨xs, -, rfl⟩ := map_ok.mp h
  exact ofNumbers_flat xs

/-- An instruction of well-typed code keeps values flat. -/
theorem execute_flat (hw : w.Flat) (h : ReadyTo w G outer i c) (hc : c.Flat) (hi : i.Within .flat) :
    (c.execute w i).Flat := by
  obtain ⟨kind, T, F, k, n, s, cs, rfl, -, hfits, -⟩ := h
  obtain ⟨hF, hs⟩ := hc.frame
  generalize hS : typesOf s = S at hfits
  generalize T n = U at hfits
  cases hfits with
  | push v =>
    rw [Config.execute_push]
    exact hF.config (List.forall_mem_cons.mpr ⟨hi, hs⟩)
  | load hx =>
    rw [Config.execute_load]
    exact ofValue_flat hF hs fun v hv => hF.read hv
  | store hx =>
    obtain ⟨v, rest, rfl, -, -⟩ := typesOf_eq_cons hS
    obtain ⟨hv, hrest⟩ := List.forall_mem_cons.mp hs
    rw [Config.execute_store]
    exact ofFrame_flat hF hrest fun F' hF' => hF.write hv hF'
  | getMember ha =>
    obtain ⟨v, rest, rfl, -, -⟩ := typesOf_eq_cons hS
    obtain ⟨hv, hrest⟩ := List.forall_mem_cons.mp hs
    rw [Config.execute_getMember]
    exact ofValue_flat hF hrest fun u hu => Value.component_flat hu
  | storeMember hx ha =>
    obtain ⟨v, rest, rfl, -, -⟩ := typesOf_eq_cons hS
    obtain ⟨hv, hrest⟩ := List.forall_mem_cons.mp hs
    rw [Config.execute_storeMember]
    exact ofFrame_flat hF hrest fun F' hF' => hF.writeComponent hF'
  | pop =>
    obtain ⟨v, rest, rfl, -, -⟩ := typesOf_eq_cons hS
    rw [Config.execute_pop]
    exact hF.config (List.forall_mem_cons.mp hs).2
  | dup =>
    obtain ⟨v, rest, rfl, -, -⟩ := typesOf_eq_cons hS
    obtain ⟨hv, hrest⟩ := List.forall_mem_cons.mp hs
    rw [Config.execute_dup]
    exact hF.config (List.forall_mem_cons.mpr ⟨hv, hs⟩)
  | unary hr =>
    obtain ⟨v, rest, rfl, -, -⟩ := typesOf_eq_cons hS
    rw [Config.execute_unary]
    exact ofValue_flat hF (List.forall_mem_cons.mp hs).2 fun u hu => Value.unary_flat hu
  | binary hr =>
    obtain ⟨r, rest, rfl, rfl, hrest⟩ := typesOf_eq_cons hS
    obtain ⟨l, rest, rfl, rfl, -⟩ := typesOf_eq_cons hrest
    obtain ⟨hr', hs⟩ := List.forall_mem_cons.mp hs
    obtain ⟨hl', hs⟩ := List.forall_mem_cons.mp hs
    rw [Config.execute_binary]
    exact ofValue_flat hF hs fun u hu => hl'.binary hr' hr hu
  | cast hc =>
    obtain ⟨v, rest, rfl, -, -⟩ := typesOf_eq_cons hS
    obtain ⟨hv, hrest⟩ := List.forall_mem_cons.mp hs
    rw [Config.execute_cast]
    exact ofValue_flat hF hrest fun u hu => hv.cast hu
  | convert ha =>
    obtain ⟨v, rest, rfl, -, -⟩ := typesOf_eq_cons hS
    obtain ⟨hv, hrest⟩ := List.forall_mem_cons.mp hs
    rw [Config.execute_convert]
    exact hF.config (List.forall_mem_cons.mpr ⟨hv.coerce _, hrest⟩)
  | makeVector =>
    obtain ⟨values, rest, rfl, hv, -⟩ := typesOf_eq_append (List.replicate 3 .float) hS
    rw [Config.execute_makeVector _ _ _ _ _ _ _ (by simpa using congrArg List.length hv)]
    exact ofValue_flat hF (List.forall_mem_append.mp hs).2 fun u hu => spatial_flat hu
  | makeRotation =>
    obtain ⟨values, rest, rfl, hv, -⟩ := typesOf_eq_append (List.replicate 4 .float) hS
    rw [Config.execute_makeRotation _ _ _ _ _ _ _ (by simpa using congrArg List.length hv)]
    exact ofValue_flat hF (List.forall_mem_append.mp hs).2 fun u hu => spatial_flat hu
  | makeList hitems =>
    obtain ⟨values, rest, rfl, rfl, -⟩ := typesOf_eq_append _ hS
    rw [List.length_map, Config.execute_makeList]
    -- here it matters that items have types which are not that of lists
    have hlist : (Value.list values).Flat := fun item hmem => hitems item.ty (List.mem_map_of_mem hmem)
    exact hF.config (List.forall_mem_cons.mpr ⟨hlist, (List.forall_mem_append.mp hs).2⟩)
  | call hc =>
    obtain ⟨args, rest, rfl, rfl, -⟩ := typesOf_eq_append _ hS
    obtain ⟨hargs, hrest⟩ := List.forall_mem_append.mp hs
    rw [List.length_map, Config.execute_call]
    exact call_flat hw hF hrest hc fun v hv => hargs v (List.mem_reverse.mpr hv)
  | jump target =>
    rw [Config.execute_jump]
    exact hF.config hs
  | jumpIfFalse target =>
    obtain ⟨v, rest, rfl, -, -⟩ := typesOf_eq_cons hS
    rw [Config.execute_jumpIfFalse]
    exact hF.config (List.forall_mem_cons.mp hs).2
  | ret hk =>
    rw [Config.execute_ret]
    exact leave_flat hF trivial
  | retValue hk =>
    obtain ⟨v, rest, rfl, -, -⟩ := typesOf_eq_cons hS
    rw [Config.execute_retValue]
    exact leave_flat hF (List.forall_mem_cons.mp hs).1
  | changeState hk hi =>
    rw [Config.execute_changeState]
    exact leave_flat hF trivial

structure RunResult.Flat (r : RunResult) : Prop where
  globals : AllFlat r.store.globals.toList
  ending : ∀ ending, r.outcome = .ok ending → ending.Flat

/-- A run goes through configurations with flat values and leaves flat values behind. -/
theorem run_flat (hw : w.Flat) (hs : w.Sound G) (budget : Nat) (ht : c.Typed w G outer) (hc : c.Flat) :
    (∀ d ∈ trail w budget c, d.Flat) ∧ (run w budget c).Flat := by
  -- flatness of one step needs the types of the operands, so that both are carried along
  let I (c : Config) : Prop := c.Typed w G outer ∧ c.Flat
  let Q (ready : Ready) : Prop := ready.Typed w G outer ∧ ready.Flat
  have settles (c : Config) (hc : I c) : Q (settle c.store c.active c.callers) :=
    ⟨settle_typed hc.1, settle_flat hc.2⟩
  have hstep (i : Instr Nat) (c : Config) (hready : Q (.instr i c)) :
      (c.execute w i).Typed w G outer ∧ (c.execute w i).Flat :=
    ⟨execute_typed hs hready.1, execute_flat hw hready.1 hready.2.1 hready.2.2⟩
  have next (i : Instr Nat) (c d : Config) (hready : Q (.instr i c)) (he : c.execute w i = .next d) :
      I d := by
    have hd := hstep i c hready
    rwa [he] at hd
  refine ⟨fun d hd => (trail_rule settles next ⟨ht, hc⟩ d hd).2, run_rule settles ?_ ?_ next ?_ ?_ ⟨ht, hc⟩⟩
  · exact fun _ _ _ hready => ⟨hready.2.1, by rintro _ ⟨⟩; exact hready.2.2⟩
  · exact fun _ _ hready => ⟨hready.2.1.globals, by rintro _ ⟨⟩⟩
  · intro i ready ending store n hready he
    have hflat := (hstep i ready hready).2
    rw [he] at hflat
    exact ⟨hflat.1, by rintro _ ⟨⟩; exact hflat.2⟩
  · intro i ready f store n hready he
    have hflat := (hstep i ready hready).2
    rw [he] at hflat
    exact ⟨hflat, by rintro _ ⟨⟩⟩

end

namespace Machine

def values (m : Machine) : List Value := m.store.globals.toList ++ m.lastLocals.map Prod.snd

/-- The variables of the script have the types `G`, and there is no list in a list. -/
structure Orderly (G : List Ty) (m : Machine) : Prop where
  types : m.Holds G
  flat : AllFlat m.values

theorem Orderly.globals {G : List Ty} {m : Machine} (h : m.Orderly G) : AllFlat m.store.globals.toList :=
  (List.forall_mem_append.mp h.flat).1

theorem Orderly.lastLocals {G : List Ty} {m : Machine} (h : m.Orderly G) :
    AllFlat (m.lastLocals.map Prod.snd) :=
  (List.forall_mem_append.mp h.flat).2

variable {w : World} {G : List Ty} {m : Machine} {args : List Value} {event : String}

theorem chunkRun_flat (hw : w.Flat) (hs : w.Sound G) {chunk : Chunk} {kind : BodyKind} {params : List Param}
    (hc : w.program.BodyTyped w.registry kind params chunk) (hcode : chunk.Within .flat)
    (ha : Accepted (params.take args.length) args) (hargs : AllFlat args) (hm : m.Orderly G) :
    (∀ c ∈ chunkTrail w chunk args m, AllFlat c.values) ∧ (chunkRun w chunk args m).Flat := by
  obtain ⟨hp, T, hT⟩ := hc
  obtain ⟨a, henter, htyped⟩ := enter_typed hT hp ha
  have hstart : Config.Typed w G kind ⟨m.store, a, []⟩ := ⟨hm.types, kind, T, htyped, rfl⟩
  have hflat : Config.Flat ⟨m.store, a, []⟩ := ⟨hm.globals, enter_flat hcode hargs henter, by simp⟩
  obtain ⟨htrail, hrun⟩ := run_flat hw hs m.budget hstart hflat
  unfold chunkRun chunkTrail
  rw [henter]
  exact ⟨fun c hc => (htrail c hc).values, hrun⟩

/-- A machine is orderly after the run of a chunk, whether that fails or not. -/
theorem afterRun_orderly {r : RunResult} (ht : typesOf r.store.globals.toList = G) (hr : r.Flat)
    (hm : m.Orderly G) :
    (m.afterRun r).Orderly G := ⟨ht, List.forall_mem_append.mpr ⟨hr.globals, hm.lastLocals⟩⟩

structure TakesFlat (w : World) (h : Handler Chunk) (args : List Value) : Prop extends Takes w h args where
  code : h.code.Within .flat
  flat : AllFlat args

theorem handler?_flat (hw : w.Flat) {state : Nat} {h : Handler Chunk} (hh : handler? w state event = some h) :
    h.code.Within .flat := by
  obtain ⟨s, hstate, hf⟩ := Option.bind_eq_some_iff.mp hh
  exact hw.program.handlers s (List.mem_of_getElem? hstate) h (List.mem_of_find?_eq_some hf)

/-- Configurations hold flat values only, and calls leave machines orderly. -/
theorem configurations_flat (hw : w.Flat) (hs : w.Sound G) :
    (Chronicle.Observation.always (fun c : Config => AllFlat c.values) fun _ m => m.Orderly G).Covers
      (.configurations w) w (Orderly G) (fun _ => True) (TakesFlat w) where
  handler := by
    intro h args ht
    refine .runHandler (fun m exit after hm hr => ?_) fun m f after hm hr => ?_
    · obtain ⟨ending, ho, -, rfl⟩ := runHandler_ok hr
      obtain ⟨htyped, -⟩ := chunkRun_typed hs ht.typed ht.accepted hm.types
      obtain ⟨htrail, hflat⟩ := chunkRun_flat hw hs ht.typed ht.code ht.accepted ht.flat hm
      refine ⟨List.forall_mem_append.mpr ⟨htrail, List.forall_mem_nil _⟩, ⟨htyped.globals, ?_⟩,
        fun _ _ => trivial⟩
      refine List.forall_mem_append.mpr ⟨hflat.globals, fun v hv => ?_⟩
      obtain ⟨⟨name, u⟩, hmem, rfl⟩ := List.mem_map.mp hv
      exact (hflat.ending ending ho).locals u (List.of_mem_zip hmem).2
    · obtain ⟨-, rfl⟩ := runHandler_error hr
      obtain ⟨htyped, -⟩ := chunkRun_typed hs ht.typed ht.accepted hm.types
      obtain ⟨htrail, hflat⟩ := chunkRun_flat hw hs ht.typed ht.code ht.accepted ht.flat hm
      exact ⟨htrail, afterRun_orderly htyped.globals hflat hm⟩
  takes hh := ⟨⟨handler?_typed hs hh, accepted_nil _⟩, handler?_flat hw hh, List.forall_mem_nil _⟩
  enters _ _ hm := ⟨List.forall_mem_nil _, hm.types, hm.flat⟩
  limit _ hm := hm

theorem call_flat (hw : w.Flat) (hs : w.Sound G) (hm : m.Orderly G) (call : Call)
    (ha : ∀ h, handler? w m.state call.event = some h → call.Fits h →
      Accepted (h.params.take call.args.length) call.args) (hargs : AllFlat call.args) :
    (m.call w call).2.Orderly G ∧ ∀ c ∈ callTrail w call m, AllFlat c.values := by
  have hm' : m.refreshed.Orderly G := ⟨hm.types, hm.flat⟩
  obtain ⟨htrail, hok, herror⟩ := (configurations_flat hw hs).recordCall call m hm'
    (fun h hh hf => ⟨⟨handler?_typed hs hh, ha h hh hf⟩, handler?_flat hw hh, hargs⟩) fun _ _ _ => hm'
  refine ⟨?_, htrail⟩
  cases hr : (m.call w call).1 with
  | ok handled => exact hok handled hr
  | error f => exact herror f hr

theorem start_flat (hw : w.Flat) (hs : w.Sound G) (hm : m.Orderly G) :
    (m.start w).2.Orderly G ∧ ∀ c ∈ startTrail w m, AllFlat c.values :=
  call_flat hw hs hm .start (fun h _ _ => accepted_nil h.params) (List.forall_mem_nil _)

theorem dispatch_flat (hw : w.Flat) (hs : w.Sound G) (hm : m.Orderly G) (ha : m.Accepts w event args)
    (hargs : AllFlat args) :
    (m.dispatch w event args).2.Orderly G ∧ ∀ c ∈ dispatchTrail w event args m, AllFlat c.values :=
  call_flat hw hs hm (.dispatch event args)
    (fun _ hh hf => ha.accepted hh (hf.resolve_left Bool.false_ne_true)) hargs

def createTrail (w : World) (host : Host) : List Config :=
  (Chronicle.recordCreation (.configurations w) w host).2

/-- While machines are created, a fault leaves none behind. -/
abbrev creationFlat : Chronicle.Observation Config := .always (fun c => AllFlat c.values) fun _ _ => True

theorem firstValue_flat (hw : w.Flat) (hs : w.Sound G) {g : GlobalSlot Chunk} (hg : g ∈ w.program.globals) :
    Chronicle.Observes creationFlat (Orderly G) (Chronicle.firstValue (.configurations w) w g)
      fun _ => Orderly (G ++ [g.ty]) := by
  have hflat (m : Machine) (hm : m.Orderly G) :=
    chunkRun_flat hw hs (hs.program.globals g hg) (hw.program.globals g hg) (accepted_nil [])
      (List.forall_mem_nil _) hm
  refine .firstValue (fun m after hm h => ⟨(hflat m hm).1, firstValue_holds hs hg hm.types h, ?_⟩)
    fun m f after hm h => ⟨(hflat m hm).1, trivial⟩
  obtain ⟨ending, ho, rfl⟩ := firstValues_ok h
  have hrun := (hflat m hm).2
  refine List.forall_mem_append.mpr ⟨?_, hm.lastLocals⟩
  simp only [afterFirstValue, Array.toList_push]
  refine List.forall_mem_append.mpr ⟨hrun.globals, List.forall_mem_singleton.mpr ?_⟩
  have hexit := (hrun.ending ending ho).exit
  split
  · rename_i v hv
    rw [hv] at hexit
    exact Value.Flat.coerce hexit g.ty
  · exact Value.defaultValue_flat g.ty

/-- Variables get flat first values, and each initializer sees flat values only. -/
theorem firstValues_flat (hw : w.Flat) (hp : w.program.WellTyped w.registry)
    (hh : ∀ f ∈ w.registry.functions, f.Honest) (done rest : List (GlobalSlot Chunk))
    (hall : done ++ rest = w.program.globals) :
    Chronicle.Observes creationFlat (Orderly (done.map GlobalSlot.ty))
      (Chronicle.firstValues (.configurations w) w rest) fun _ =>
        Orderly (w.program.globals.map GlobalSlot.ty) := by
  induction rest generalizing done with
  | nil =>
    rw [← hall, List.append_nil]
    exact .pure fun _ hm => hm
  | cons g rest ih =>
    have hs : w.Sound (done.map GlobalSlot.ty) := ⟨hp, hh, by simp [← hall]⟩
    have hg : g ∈ w.program.globals := by simp [← hall]
    refine (firstValue_flat hw hs hg).bind fun _ => ?_
    simpa using ih (done ++ [g]) (by simp [← hall])

theorem create_flat (hw : w.Flat) (hs : w.Sound (w.program.globals.map GlobalSlot.ty)) (host : Host) :
    (∀ c ∈ createTrail w host, AllFlat c.values) ∧
      ∀ m, create w host = .ok m → m.Orderly (w.program.globals.map GlobalSlot.ty) := by
  rw [← Chronicle.recordCreation_fst (.configurations w)]
  unfold createTrail Chronicle.recordCreation
  cases w.program.stateIndex? "default" with
  | none => exact ⟨List.forall_mem_nil _, nofun⟩
  | some state =>
    have hempty : Orderly (List.map GlobalSlot.ty ([] : List (GlobalSlot Chunk)))
        ⟨⟨#[], host, 0.0⟩, state, [], maxInstructions⟩ := ⟨rfl, List.forall_mem_nil _⟩
    obtain ⟨htrail, hok, -⟩ :=
      (firstValues_flat hw hs.program hs.honest [] w.program.globals rfl).record hempty
    refine ⟨htrail, fun m h => ?_⟩
    obtain ⟨a, ha, rfl⟩ := map_ok.mp h
    exact hok a ha

/-- The machines that calls lead to, however they end, when the arguments of events have accepted types
and are flat.  Between calls the host may change. -/
inductive ReachableFlat (w : World) (host : Host) : Machine → Prop
  | create {m : Machine} (h : create w host = .ok m) : ReachableFlat w host m
  | start {m : Machine} (h : ReachableFlat w host m) : ReachableFlat w host (m.start w).2
  | dispatch {m : Machine} (h : ReachableFlat w host m) {event : String} {args : List Value}
      (ha : m.Accepts w event args) (hargs : AllFlat args) : ReachableFlat w host (m.dispatch w event args).2
  | changeHost {m : Machine} (h : ReachableFlat w host m) (other : Host) :
      ReachableFlat w host { m with store := { m.store with host := other } }

theorem ReachableFlat.orderly (hw : w.Flat) (hs : w.Sound (w.program.globals.map GlobalSlot.ty)) {host : Host}
    {m : Machine} (h : ReachableFlat w host m) : m.Orderly (w.program.globals.map GlobalSlot.ty) := by
  induction h with
  | create h => exact (create_flat hw hs host).2 _ h
  | start _ ih => exact (start_flat hw hs ih).1
  | dispatch _ ha hargs ih => exact (dispatch_flat hw hs ih ha hargs).1
  | changeHost _ other ih => exact ⟨ih.types, ih.flat⟩

/-- Where a registry keeps to its declarations and brings no list in a list, there is no list in a list:
not while a machine is created, not in a machine that calls with such arguments lead to, and not in any
configuration of a further call. -/
theorem lists_stay_flat {registry : Registry} (hb : registry.Built) (hh : registry.Honest)
    (hf : registry.Flat) {options : CompileOptions} {replacements : Replacements} {source : String}
    {p : Program Chunk} (hp : Script.compile registry options replacements source = .ok p) (host : Host) :
    (∀ c ∈ createTrail ⟨p, registry⟩ host, AllFlat c.values) ∧
      ∀ m, ReachableFlat ⟨p, registry⟩ host m →
        AllFlat m.values ∧ (∀ c ∈ startTrail ⟨p, registry⟩ m, AllFlat c.values) ∧
        ∀ event args, m.Accepts ⟨p, registry⟩ event args → AllFlat args →
          ∀ c ∈ dispatchTrail ⟨p, registry⟩ event args m, AllFlat c.values := by
  have hw : World.Flat ⟨p, registry⟩ := ⟨Script.compile_flat hf.constants hp, hf.functions⟩
  have hs : World.Sound ⟨p, registry⟩ (p.globals.map GlobalSlot.ty) :=
    ⟨Script.compile_wellTyped hb hp, hh, List.prefix_rfl⟩
  refine ⟨(create_flat hw hs host).1, fun m hm => ?_⟩
  have horderly := hm.orderly hw hs
  exact ⟨horderly.flat, (start_flat hw hs horderly).2, fun event args ha hargs =>
    (dispatch_flat hw hs horderly ha hargs).2⟩

end Machine

namespace Sample

def pair : FunctionOffer :=
  .method "pair" [.integer] (some .list) <| .ofPure fun
    | [.integer n] => .ok (some (.list [.integer n, .integer n]))
    | _ => .ok none

def listing : Registry :=
  .ofBuilder ((Builder.empty false).registerAll
    [.event (.ofParams "state_entry" []), .event (.ofParams "gathered" [.list]),
      .constant (.ofValue "LETTERS" (.list [.string "a", .string "b"])), .function pair]).2

theorem listing_built : listing.Built := ⟨_, (Builder.Reachable.empty false).registerAll _, rfl⟩

theorem listing_functions : listing.functions.toList = [{
    id := 0, name := "pair", member := "pair", provider := Builder.hostProvider, params := [.integer]
    returns := some .list, dialects := .all, group := none, cost := .default, description := none
    impl := pair.impl }] := by
  rw [listing, Registry.ofBuilder_functions]
  with_unfolding_all rfl

/-- The function is given a number and returns it twice. -/
theorem listing_returns {f : HostFunction} (hf : f ∈ listing.functions) {host : Host} {args : List Value}
    {v : Value} (ha : typesOf args = f.params) (hv : (f.impl host args).1 = .ok (some v)) :
    f.returns = some .list ∧ ∃ n, v = .list [.integer n, .integer n] := by
  rw [← Array.mem_toList_iff, listing_functions, List.mem_singleton] at hf
  subst hf
  obtain ⟨u, rest, rfl, hu, hrest⟩ := typesOf_eq_cons ha
  obtain rfl : rest = [] := List.map_eq_nil_iff.mp hrest
  cases u with
  | integer n =>
    cases hv
    exact ⟨rfl, n, rfl⟩
  | long | float | string | key | vector | rotation | list => cases hu

theorem listing_honest : listing.Honest := by
  intro f hf host args ty v ha hr hv
  obtain ⟨hlist, n, rfl⟩ := listing_returns hf ha hv
  rw [hlist] at hr
  cases hr
  rfl

theorem listing_flat : listing.Flat where
  constants := by
    have hconstants : listing.constants.map HostConstant.value = [.list [.string "a", .string "b"]] := by
      with_unfolding_all rfl
    intro c hc
    have hmem : c.value ∈ listing.constants.map HostConstant.value := List.mem_map_of_mem hc
    rw [hconstants, List.mem_singleton] at hmem
    rw [hmem]
    simp [Value.Flat, Value.ty]
  functions := by
    intro f hf host args v ha hargs hv
    obtain ⟨-, n, rfl⟩ := listing_returns hf ha hv
    simp [Value.Flat, Value.ty]

def gathering : String :=
  "list a = LETTERS; default { state_entry() { a += pair(1); } gathered(list b) { a = a + b + [2, (string)a]; } }"

/-- All items come into the one list. -/
theorem gathering_runs :
    ∃ p m, Script.compile listing options [] gathering = .ok p ∧
    Machine.create ⟨p, listing⟩ (.named "sample") = .ok m ∧
    (Machine.handler? ⟨p, listing⟩ (m.start ⟨p, listing⟩).2.state "gathered").map (fun h =>
      h.params.map Param.ty) =
      some [.list] ∧
    ((m.start ⟨p, listing⟩).2.dispatch ⟨p, listing⟩ "gathered"
      [.list [.integer 3]]).2.store.globals.toList.map
      (fun v => v.asItems.length) = [7] := by
  have hs : gathering.toList = _ := String.toList_ofList
  obtain ⟨p, m, hp, hm, h⟩ := exists_machine listing hs (by decide +kernel) (fun p m =>
    decide ((Machine.handler? ⟨p, listing⟩ (m.start ⟨p, listing⟩).2.state "gathered").map
      (fun h => h.params.map Param.ty) = some [.list]) &&
    decide (((m.start ⟨p, listing⟩).2.dispatch ⟨p, listing⟩ "gathered"
      [.list [.integer 3]]).2.store.globals.toList.map (fun v => v.asItems.length) = [7])) (by decide +kernel)
  rw [Bool.and_eq_true, decide_eq_true_eq, decide_eq_true_eq] at h
  exact ⟨p, m, hp, hm, h⟩

end Sample

/-- Lists of a constant, of a host function and of an event are joined, and no list gets into a list. -/
theorem Machine.gathering_stays_flat :
    ∃ p m, Script.compile Sample.listing Sample.options [] Sample.gathering = .ok p ∧
    create ⟨p, Sample.listing⟩ (.named "sample") = .ok m ∧
    (m.start ⟨p, Sample.listing⟩).2.Accepts ⟨p, Sample.listing⟩ "gathered" [.list [.integer 3]] ∧
    (∀ c ∈ createTrail ⟨p, Sample.listing⟩ (.named "sample"), AllFlat c.values) ∧
    (∀ c ∈ startTrail ⟨p, Sample.listing⟩ m, AllFlat c.values) ∧
    (∀ c ∈ dispatchTrail ⟨p, Sample.listing⟩ "gathered" [.list [.integer 3]] (m.start ⟨p, Sample.listing⟩).2,
      AllFlat c.values) ∧
    AllFlat ((m.start ⟨p, Sample.listing⟩).2.dispatch ⟨p, Sample.listing⟩ "gathered"
      [.list [.integer 3]]).2.values ∧
    ((m.start ⟨p, Sample.listing⟩).2.dispatch ⟨p, Sample.listing⟩ "gathered"
      [.list [.integer 3]]).2.store.globals.toList.map (fun v => v.asItems.length) = [7] := by
  obtain ⟨p, m, hp, hm, hhandler, hitems⟩ := Sample.gathering_runs
  have haccepts :
      (m.start ⟨p, Sample.listing⟩).2.Accepts ⟨p, Sample.listing⟩ "gathered" [.list [.integer 3]] :=
    .of_types hhandler (by decide)
  have hflat : AllFlat [.list [.integer 3]] := List.forall_mem_singleton.mpr (by simp [Value.Flat, Value.ty])
  obtain ⟨hcreate, hcalls⟩ :=
    lists_stay_flat Sample.listing_built Sample.listing_honest Sample.listing_flat hp (.named "sample")
  have hstarted : ReachableFlat ⟨p, Sample.listing⟩ (.named "sample") (m.start ⟨p, Sample.listing⟩).2 :=
    .start (.create hm)
  refine ⟨p, m, hp, hm, haccepts, hcreate, (hcalls m (.create hm)).2.1, ?_, ?_, hitems⟩
  · exact (hcalls _ hstarted).2.2 _ _ haccepts hflat
  · exact (hcalls _ (.dispatch hstarted haccepts hflat)).1

end WorldScript
