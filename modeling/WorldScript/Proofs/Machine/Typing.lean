import Mathlib.Data.List.Forall2
import WorldScript.Proofs.Machine.Instruction
import WorldScript.Proofs.Script.Typing

/-! # Well-typed configurations

In a well-typed configuration every slot holds a value of its declared type, and the stack holds what the
types of the code say.  One instruction leads from such a configuration to another, to the end of the
outermost body, or to one of the few faults that no type rules out.
-/

namespace WorldScript

def World.layout (w : World) (c : Chunk) : Layout := w.program.layout w.registry (c.locals.map Param.ty)

abbrev typesOf (values : List Value) : List Ty := values.map Value.ty

def Activation.SlotsTyped (a : Activation) : Prop :=
  typesOf a.locals.toList = a.chunk.locals.map Param.ty

/-- An activation that goes on once values of the types `top` are on its stack. -/
structure Activation.Typed (w : World) (kind : BodyKind) (T : Nat → List Ty) (top : List Ty)
    (a : Activation) : Prop where
  chunk : a.chunk.Typed (w.layout a.chunk) kind T
  slots : a.SlotsTyped
  stack : T a.position = top ++ typesOf a.stack

/-- Callers of a body of the kind `kind`, the outermost of which has the kind `outer`. -/
def Waiting (w : World) (outer : BodyKind) : BodyKind → List Pending → Prop
  | kind, [] => kind = outer
  | kind, p :: rest => kind = .function p.callee.returns ∧
      ∃ callerKind T, p.caller.Typed w callerKind T p.callee.returns.toList ∧ Waiting w outer callerKind rest

/-- A configuration in which the variables of the script have the types `G`, and in which every body fits
the types of its code. -/
structure Config.Typed (w : World) (G : List Ty) (outer : BodyKind) (c : Config) : Prop where
  globals : typesOf c.store.globals.toList = G
  bodies : ∃ kind T, c.active.Typed w kind T [] ∧ Waiting w outer kind c.callers

/-- The faults that the types of a script do not rule out.  While the variables of the script get their
first values, one that has none yet may be asked for. -/
inductive Fault.OfRun (w : World) (G : List Ty) : Fault → Prop
  | divisionByZero : OfRun w G .divisionByZero
  | callDepth : OfRun w G .callDepth
  | instructionLimit : OfRun w G .instructionLimit
  | host {f : HostFunction} {host : Host} {args : List Value} {problem : HostFault}
      (hf : f ∈ w.registry.functions) (hi : (f.impl host args).1 = .error problem) : OfRun w G (.host problem)
  | missing {slot : Nat} (hs : G.length ≤ slot) (hl : slot < w.program.globals.length) :
      OfRun w G (.noVariable (.glob slot))

def Exit.Typed (kind : BodyKind) : Exit → Prop
  | .ret (some v) => kind.returns = some v.ty
  | .ret none => True
  | .changeState _ => kind = .event

def Transition.Typed (w : World) (G : List Ty) (outer : BodyKind) : Transition → Prop
  | .next c => c.Typed w G outer
  | .done ending store => typesOf store.globals.toList = G ∧ ending.exit.Typed outer
  | .fault f store => typesOf store.globals.toList = G ∧ f.OfRun w G

def HostFunction.Honest (f : HostFunction) : Prop :=
  ∀ (host : Host) (args : List Value) (ty : Ty) (v : Value), typesOf args = f.params → f.returns = some ty →
    (f.impl host args).1 = .ok (some v) → ty.accepts v.ty = true

/-- What the machine needs to know of a world in which the first variables of the script, those of the
types `G`, have a value. -/
structure World.Sound (w : World) (G : List Ty) : Prop where
  program : w.program.WellTyped w.registry
  honest : ∀ f ∈ w.registry.functions, f.Honest
  globals : G <+: w.program.globals.map GlobalSlot.ty

theorem typesOf_eq_cons (h : typesOf stack = ty :: S) :
    ∃ v rest, stack = v :: rest ∧ v.ty = ty ∧ typesOf rest = S := List.map_eq_cons_iff.mp h

/-- Several values on top of a stack of known types, in the order in which they were pushed. -/
theorem typesOf_eq_append (types : List Ty) (h : typesOf stack = types.reverse ++ S) :
    ∃ values rest, stack = values.reverse ++ rest ∧ typesOf values = types ∧ typesOf rest = S := by
  obtain ⟨top, rest, rfl, ht, hr⟩ := List.map_eq_append_iff.mp h
  refine ⟨top.reverse, rest, by simp, ?_, hr⟩
  rw [typesOf, List.map_reverse, ht, List.reverse_reverse]

/-- The variables of the script have the types `G`, and the locals those of their chunk. -/
structure Frame.Typed (G : List Ty) (k : Chunk) (F : Frame) : Prop where
  globals : typesOf F.store.globals.toList = G
  slots : typesOf F.locals.toList = k.locals.map Param.ty

structure Inside (w : World) (G : List Ty) (outer kind : BodyKind) (T : Nat → List Ty) (k : Chunk)
    (cs : List Pending) (F : Frame) : Prop where
  frame : F.Typed G k
  chunk : k.Typed (w.layout k) kind T
  callers : Waiting w outer kind cs

variable {w : World} {G : List Ty} {outer kind : BodyKind} {T : Nat → List Ty} {k : Chunk} {n : Nat}
  {s : List Value} {cs : List Pending} {F F' : Frame} {ty : Ty} {v : Value} {r : Except Fault Value} {x : Var}
  {args : List Value} {params : List Param} {store : Store} {stack : List Value} {S types : List Ty}
  {values : Array Value} {slot : Nat} {xs : List Float} {a : Activation} {callers : List Pending}
  {i : Instr Nat} {c : Config}

theorem Inside.typed (h : Inside w G outer kind T k cs F) (hs : T n = typesOf s) :
    (F.config k n s cs).Typed w G outer :=
  ⟨h.frame.globals, kind, T, ⟨h.chunk, h.frame.slots, hs⟩, h.callers⟩

theorem Inside.change (h : Inside w G outer kind T k cs F) (hF : F'.Typed G k) :
    Inside w G outer kind T k cs F' := ⟨hF, h.chunk, h.callers⟩

theorem typesOf_getElem? (h : typesOf values.toList = types) (i : Nat) :
    values[i]?.map Value.ty = types[i]? := by
  rw [← h, List.getElem?_map, Array.getElem?_toList]

theorem typesOf_set {i : Nat} (h : typesOf values.toList = types) (hi : types[i]? = some v.ty) :
    typesOf (values.setIfInBounds i v).toList = types := by
  have hset : typesOf (values.setIfInBounds i v).toList = types.set i v.ty := by
    rw [typesOf, Array.toList_setIfInBounds, List.map_set, ← h]
  obtain ⟨hlt, hv⟩ := List.getElem?_eq_some_iff.mp hi
  rw [hset, ← hv, List.set_getElem_self]

/-- A variable of the script that has no value yet. -/
theorem missing_ofRun (hx : (w.layout k).varTy (.glob slot) = some ty) (hs : G[slot]? = none) :
    Fault.OfRun w G (.noVariable (.glob slot)) := by
  have hlt := (List.getElem?_eq_some_iff.mp hx).1
  exact .missing (List.getElem?_eq_none_iff.mp hs) (by simpa [World.layout, Program.layout] using hlt)

/-- The type of a variable of the script that has a value. -/
theorem World.Sound.globalTy (hw : w.Sound G) {found : Ty} (hx : (w.layout k).varTy (.glob slot) = some ty)
    (hs : G[slot]? = some found) : found = ty := by
  obtain ⟨more, hm⟩ := hw.globals
  have hlt := (List.getElem?_eq_some_iff.mp hs).1
  have hx : (w.program.globals.map GlobalSlot.ty)[slot]? = some ty := hx
  rw [← hm, List.getElem?_append_left hlt, hs] at hx
  exact Option.some.inj hx

/-- A result of the type `ty`, or a fault that types do not rule out. -/
def Lands (w : World) (G : List Ty) (ty : Ty) (r : Except Fault Value) : Prop :=
  (∃ v, r = .ok v ∧ v.ty = ty) ∨ ∃ f, r = .error f ∧ f.OfRun w G

theorem Lands.of_ok (h : ∃ v, r = .ok v ∧ v.ty = ty) : Lands w G ty r := .inl h

theorem Lands.of_gives (h : Gives ty r) : Lands w G ty r := by
  rcases h with h | h
  · exact .inl h
  · exact .inr ⟨_, h, .divisionByZero⟩

/-- A read gives a value of the type of the variable, unless the variable has no value yet. -/
theorem Frame.Typed.read (hw : w.Sound G) (hF : F.Typed G k) (hx : (w.layout k).varTy x = some ty) :
    Lands w G ty (F.read x) := by
  cases x with
  | loc slot =>
    have hl := typesOf_getElem? hF.slots slot
    rw [show (k.locals.map Param.ty)[slot]? = some ty from hx] at hl
    obtain ⟨v, hv, hty⟩ := Option.map_eq_some_iff.mp hl
    exact .inl ⟨v, by simp [Frame.read, hv], hty⟩
  | glob slot =>
    have hg := typesOf_getElem? hF.globals slot
    cases hs : G[slot]? with
    | none =>
      rw [hs, Option.map_eq_none_iff] at hg
      exact .inr ⟨_, by simp [Frame.read, hg], missing_ofRun hx hs⟩
    | some found =>
      rw [hs] at hg
      obtain ⟨v, hv, hty⟩ := Option.map_eq_some_iff.mp hg
      exact .inl ⟨v, by simp [Frame.read, hv], hty.trans (hw.globalTy hx hs)⟩

theorem Frame.Typed.write (hw : w.Sound G) (hF : F.Typed G k) (hx : (w.layout k).varTy x = some v.ty) :
    (∃ F', F.write x v = .ok F' ∧ F'.Typed G k) ∨ ∃ f, F.write x v = .error f ∧ f.OfRun w G := by
  cases x with
  | loc slot =>
    have hl : (k.locals.map Param.ty)[slot]? = some v.ty := hx
    have hlt : slot < F.locals.size := by
      have hlen := congrArg List.length hF.slots
      have hb := (List.getElem?_eq_some_iff.mp hl).1
      simp only [List.length_map, Array.length_toList] at hlen hb
      omega
    refine .inl ⟨{ F with locals := F.locals.setIfInBounds slot v }, by simp [Frame.write, hlt],
      hF.globals, ?_⟩
    exact typesOf_set hF.slots hl
  | glob slot =>
    have hlen : F.store.globals.size = G.length := by simpa using congrArg List.length hF.globals
    cases hs : G[slot]? with
    | none =>
      have hle := List.getElem?_eq_none_iff.mp hs
      refine .inr ⟨_, ?_, missing_ofRun hx hs⟩
      simp [Frame.write, show ¬ slot < F.store.globals.size by omega]
    | some found =>
      have hlt := (List.getElem?_eq_some_iff.mp hs).1
      have hty := hw.globalTy hx hs
      refine .inl ⟨{ F with store := { F.store with globals := F.store.globals.setIfInBounds slot v } },
        ?_, ?_, hF.slots⟩
      · simp [Frame.write, show slot < F.store.globals.size by omega]
      · exact typesOf_set hF.globals (hty ▸ hs)

theorem ofValue_typed (h : Inside w G outer kind T k cs F) (hr : Lands w G ty r)
    (hT : T n = ty :: typesOf s) : (Transition.ofValue F k n s cs r).Typed w G outer := by
  rcases hr with ⟨v, rfl, rfl⟩ | ⟨f, rfl, hf⟩
  · exact h.typed hT
  · exact ⟨h.frame.globals, hf⟩

theorem ofFrame_typed (h : Inside w G outer kind T k cs F) {r : Except Fault Frame}
    (hr : (∃ F', r = .ok F' ∧ F'.Typed G k) ∨ ∃ f, r = .error f ∧ f.OfRun w G) (hT : T n = typesOf s) :
    (Transition.ofFrame F k n s cs r).Typed w G outer := by
  rcases hr with ⟨F', rfl, hF'⟩ | ⟨f, rfl, hf⟩
  · exact (h.change hF').typed hT
  · exact ⟨h.frame.globals, hf⟩

theorem Frame.Typed.writeComponent (hw : w.Sound G) (hF : F.Typed G k) {axis : Axis} (hv : v.ty = .float)
    (hx : (w.layout k).varTy x = some ty) (ha : axis.appliesTo ty = true) :
    (∃ F', F.writeComponent x axis v = .ok F' ∧ F'.Typed G k) ∨
      ∃ f, F.writeComponent x axis v = .error f ∧ f.OfRun w G := by
  obtain ⟨number, hnumber⟩ := Value.asFloat?_of_ty hv
  simp only [Frame.writeComponent, hnumber]
  rcases hF.read hw hx with ⟨old, hold, rfl⟩ | ⟨f, hf, hrun⟩
  · obtain ⟨new, hnew, hty⟩ := Value.setComponent_ty number ha
    simp only [hold, hnew, bind, Except.bind]
    exact hF.write hw (hty ▸ hx)
  · exact .inr ⟨f, by simp only [hf, bind, Except.bind], hrun⟩

theorem numbers_float {values : List Value} (h : ∀ v ∈ values, v.ty = .float) :
    ∃ xs, numbers values = .ok xs ∧ xs.length = values.length := by
  induction values with
  | nil => exact ⟨[], rfl, rfl⟩
  | cons v rest ih =>
    obtain ⟨x, hx⟩ := Value.asFloat?_of_ty (h v List.mem_cons_self)
    obtain ⟨xs, hxs, hlen⟩ := ih fun u hu => h u (List.mem_cons_of_mem _ hu)
    exact ⟨x :: xs, by simp [numbers, hx, hxs, Except.map], by simp [hlen]⟩

/-- Three or four numbers make a vector or a rotation. -/
theorem spatial_ty {values : List Value} {count : Nat} (h : typesOf values = List.replicate count .float) :
    ∃ xs, (numbers values).map ofNumbers = .ok (ofNumbers xs) ∧ xs.length = count := by
  have hlen : values.length = count := by simpa using congrArg List.length h
  have hall : ∀ v ∈ values, v.ty = .float := by
    intro v hv
    have hmem : v.ty ∈ typesOf values := List.mem_map_of_mem hv
    rw [h] at hmem
    exact List.eq_of_mem_replicate hmem
  obtain ⟨xs, hxs, hl⟩ := numbers_float hall
  exact ⟨xs, by simp [hxs, Except.map], hl.trans hlen⟩

theorem ofNumbers_three (h : xs.length = 3) : (ofNumbers xs).ty = .vector := by
  match xs, h with
  | [_, _, _], _ => rfl

theorem ofNumbers_four (h : xs.length = 4) : (ofNumbers xs).ty = .rotation := by
  match xs, h with
  | [_, _, _, _], _ => rfl

abbrev Accepted (params : List Param) (args : List Value) : Prop :=
  List.Forall₂ (fun p v => p.ty.accepts v.ty = true) params args

/-- The locals of a chunk have their types at its start. -/
theorem bind_typed {locals : List Param} (ha : Accepted (locals.take args.length) args) :
    ∃ values, Activation.bind locals args = .ok values ∧ typesOf values = locals.map Param.ty := by
  induction args generalizing locals with
  | nil => exact ⟨locals.map fun l => l.ty.defaultValue, by cases locals <;> rfl, by simp⟩
  | cons v args ih =>
    cases locals with
    | nil => cases ha
    | cons l locals =>
      simp only [List.length_cons, List.take_succ_cons, List.forall₂_cons] at ha
      obtain ⟨values, hvalues, hty⟩ := ih ha.2
      refine ⟨v.coerce l.ty :: values, by simp [Activation.bind, hvalues, Except.map], ?_⟩
      simp only [typesOf, List.map_cons, Value.coerce_ty ha.1]
      exact congrArg _ hty

/-- The start of a body whose first locals are its parameters. -/
theorem enter_typed {c : Chunk} (hc : c.Typed (w.layout c) kind T) (hp : params <+: c.locals)
    (ha : Accepted (params.take args.length) args) :
    ∃ a, Activation.enter c args = .ok a ∧ a.Typed w kind T [] := by
  have hlen : args.length ≤ params.length := by
    have := ha.length_eq
    simp only [List.length_take] at this
    omega
  have hl : params.take args.length = c.locals.take args.length := by
    obtain ⟨more, hm⟩ := hp
    rw [← hm, List.take_append_of_le_length hlen]
  obtain ⟨values, hvalues, hty⟩ := bind_typed (hl ▸ ha)
  refine ⟨⟨c, 0, [], values.toArray⟩, by simp [Activation.enter, hvalues, Except.map], hc, ?_, hc.start⟩
  simpa [Activation.SlotsTyped] using hty

theorem accepted_of_typesOf (h : typesOf args = params.map Param.ty) : Accepted params args := by
  induction params generalizing args with
  | nil =>
    cases args with
    | nil => exact .nil
    | cons v args => simp at h
  | cons p params ih =>
    cases args with
    | nil => simp at h
    | cons v args =>
      simp only [typesOf, List.map_cons, List.cons.injEq] at h
      exact .cons (h.1 ▸ Ty.accepts_self _) (ih h.2)

theorem Accepted.take (h : Accepted params args) : Accepted (params.take args.length) args := by
  rw [← h.length_eq, List.take_length]
  exact h

theorem callHost_typed (hw : w.Sound G) (h : Inside w G outer kind T k cs F) {f : HostFunction}
    (hf : f ∈ w.registry.functions) (ha : typesOf args = f.params)
    (hT : T n = f.returns.toList ++ typesOf s) : ((F.config k n s cs).callHost f args).Typed w G outer := by
  rw [Config.callHost_config]
  have hafter : ∀ host, Inside w G outer kind T k cs (F.afterHost f host) := fun host =>
    h.change ⟨h.frame.globals, h.frame.slots⟩
  split
  · rename_i problem host hi
    exact ⟨h.frame.globals, .host hf (by rw [hi])⟩
  · rename_i value host hi
    refine (hafter host).typed ?_
    rw [hT]
    simp only [typesOf, List.map_append]
    congr 1
    cases hr : f.returns with
    | none => simp [HostFunction.result, hr]
    | some ty =>
      cases value with
      | none => simp [HostFunction.result, hr]
      | some v =>
        have hacc := hw.honest f hf F.store.host args ty v ha hr (by rw [hi])
        simp [HostFunction.result, hr, Value.coerce_ty hacc]

theorem callScript_typed (hw : w.Sound G) (h : Inside w G outer kind T k cs F) {f : ScriptFunction Chunk}
    (hf : f ∈ w.program.functions) (ha : typesOf args = f.signature.params.map Param.ty)
    (hT : T n = f.signature.returns.toList ++ typesOf s) :
    ((F.config k n s cs).callScript f args).Typed w G outer := by
  obtain ⟨hparams, T', hcode⟩ := hw.program.functions f hf
  obtain ⟨a, hentered, htyped⟩ := enter_typed hcode hparams (accepted_of_typesOf ha).take
  unfold Config.callScript
  split
  · exact ⟨h.frame.globals, .callDepth⟩
  · rw [hentered]
    refine ⟨h.frame.globals, _, T', htyped, rfl, kind, T, ⟨h.chunk, h.frame.slots, hT⟩, h.callers⟩

theorem call_typed (hw : w.Sound G) (h : Inside w G outer kind T k cs F) {callee : Callee}
    {returns : Option Ty} (hc : (w.layout k).calleeTy callee = some (typesOf args, returns))
    (hT : T n = returns.toList ++ typesOf s) : ((F.config k n s cs).call w callee args).Typed w G outer := by
  cases callee with
  | host id =>
    obtain ⟨f, hf, he⟩ := Option.map_eq_some_iff.mp hc
    obtain ⟨ha, rfl⟩ := Prod.mk.inj he
    have hf : w.registry.functions[id]? = some f := hf
    simp only [Config.call, hf]
    exact callHost_typed hw h (Array.mem_of_getElem? hf) ha.symm hT
  | script index =>
    obtain ⟨signature, hs, he⟩ := Option.map_eq_some_iff.mp hc
    obtain ⟨ha, rfl⟩ := Prod.mk.inj he
    obtain ⟨f, hf, rfl⟩ := Option.map_eq_some_iff.mp ((List.getElem?_map ..).symm.trans hs)
    simp only [Config.call, hf]
    exact callScript_typed hw h (List.mem_of_getElem? hf) ha.symm hT

/-- A caller goes on with the value that its callee returned. -/
theorem resume_typed {p : Pending} {rest : List Pending} {value : Option Value}
    (hg : typesOf store.globals.toList = G) (hp : Waiting w outer kind (p :: rest))
    (hv : ∀ v, value = some v → kind.returns = some v.ty) :
    Config.Typed w G outer ⟨store, p.resume value, rest⟩ := by
  obtain ⟨rfl, callerKind, T', hcaller, hrest⟩ := hp
  refine ⟨hg, callerKind, T', ?_, hrest⟩
  have hstack := hcaller.stack
  cases hr : p.callee.returns with
  | none =>
    rw [hr] at hstack
    simp only [Pending.resume, hr]
    exact ⟨hcaller.chunk, hcaller.slots, hstack⟩
  | some ty =>
    rw [hr] at hstack
    simp only [Pending.resume, hr]
    refine ⟨hcaller.chunk, hcaller.slots, hstack.trans ?_⟩
    cases value with
    | none => simp
    | some v =>
      have hty : some ty = some v.ty := by simpa [BodyKind.returns, hr] using hv v rfl
      simp [Option.some.inj hty]

theorem leave_typed (h : Inside w G outer kind T k cs F) {exit : Exit} (he : exit.Typed kind) :
    ((F.config k n s cs).leave exit).Typed w G outer := by
  cases cs with
  | nil =>
    have hk : kind = outer := h.callers
    exact ⟨h.frame.globals, hk ▸ he⟩
  | cons p rest =>
    cases exit with
    | ret value =>
      refine resume_typed h.frame.globals h.callers ?_
      rintro v rfl
      exact he
    | changeState index =>
      have hk : kind = .function p.callee.returns := h.callers.1
      have hevent : kind = .event := he
      simp [hk] at hevent

/-- A configuration whose next instruction, already fetched, is `i`. -/
def ReadyTo (w : World) (G : List Ty) (outer : BodyKind) (i : Instr Nat) (c : Config) : Prop :=
  ∃ kind T F k n s cs, c = Frame.config F k n s cs ∧ Inside w G outer kind T k cs F ∧
    i.Fits (w.layout k) kind (typesOf s) (T n) ∧ ∀ t, i.target? = some t → T t = []

theorem fetch_readyTo (h : Config.Typed w G outer ⟨store, a, callers⟩) (hf : a.fetch? = some i) :
    ReadyTo w G outer i ⟨store, { a with position := a.position + 1 }, callers⟩ := by
  obtain ⟨hg, kind, T, ha, hcallers⟩ := h
  obtain ⟨e, he, rfl⟩ := Option.map_eq_some_iff.mp hf
  have hfits := ha.chunk.fits a.position e he
  rw [ha.stack, List.nil_append] at hfits
  exact ⟨kind, T, ⟨store, a.locals⟩, a.chunk, a.position + 1, a.stack, callers, rfl,
    ⟨⟨hg, ha.slots⟩, ha.chunk, hcallers⟩, hfits, fun t ht => (ha.chunk.targets _ e t he ht).2⟩

def Ready.Typed (w : World) (G : List Ty) (outer : BodyKind) : Ready → Prop
  | .ended ending store => typesOf store.globals.toList = G ∧ ending.exit.Typed outer
  | .instr i c => ReadyTo w G outer i c

theorem settle_typed (h : Config.Typed w G outer ⟨store, a, callers⟩) :
    (settle store a callers).Typed w G outer := by
  refine settle_rule (I := Config.Typed w G outer) ?_ ?_ (fun _ _ _ => fetch_readyTo) h
  · exact fun _ h => ⟨h.globals, trivial⟩
  · rintro _ p rest ⟨hg, kind, T, -, hcallers⟩
    exact resume_typed hg hcallers (by simp)

/-- An instruction leads to a well-typed configuration, to the end, or to a fault that types do not rule
out. -/
theorem execute_typed (hw : w.Sound G) (h : ReadyTo w G outer i c) : (c.execute w i).Typed w G outer := by
  obtain ⟨kind, T, F, k, n, s, cs, rfl, hin, hfits, htarget⟩ := h
  generalize hS : typesOf s = S at hfits
  generalize hU : T n = U at hfits
  cases hfits with
  | push v =>
    rw [Config.execute_push]
    subst hS
    exact hin.typed hU
  | load hx =>
    rw [Config.execute_load]
    subst hS
    exact ofValue_typed hin (hin.frame.read hw hx) hU
  | store hx =>
    obtain ⟨v, rest, rfl, rfl, rfl⟩ := typesOf_eq_cons hS
    rw [Config.execute_store]
    exact ofFrame_typed hin (hin.frame.write hw hx) hU
  | getMember ha =>
    obtain ⟨v, rest, rfl, rfl, rfl⟩ := typesOf_eq_cons hS
    obtain ⟨x, hx⟩ := Value.component_ty ha
    rw [Config.execute_getMember]
    exact ofValue_typed hin (.of_ok ⟨_, hx, rfl⟩) hU
  | storeMember hx ha =>
    obtain ⟨v, rest, rfl, hv, rfl⟩ := typesOf_eq_cons hS
    rw [Config.execute_storeMember]
    exact ofFrame_typed hin (hin.frame.writeComponent hw hv hx ha) hU
  | pop =>
    obtain ⟨v, rest, rfl, rfl, rfl⟩ := typesOf_eq_cons hS
    rw [Config.execute_pop]
    exact hin.typed hU
  | dup =>
    obtain ⟨v, rest, rfl, rfl, rfl⟩ := typesOf_eq_cons hS
    rw [Config.execute_dup]
    exact hin.typed hU
  | unary hr =>
    obtain ⟨v, rest, rfl, rfl, rfl⟩ := typesOf_eq_cons hS
    rw [Config.execute_unary]
    exact ofValue_typed hin (.of_ok (Value.unary_ty hr)) hU
  | binary hr =>
    obtain ⟨r, rest, rfl, rfl, hrest⟩ := typesOf_eq_cons hS
    obtain ⟨l, rest, rfl, rfl, rfl⟩ := typesOf_eq_cons hrest
    rw [Config.execute_binary]
    exact ofValue_typed hin (.of_gives (Value.binary_ty hr)) hU
  | cast hc =>
    obtain ⟨v, rest, rfl, rfl, rfl⟩ := typesOf_eq_cons hS
    rw [Config.execute_cast]
    exact ofValue_typed hin (.of_ok (Value.cast_ty hc)) hU
  | convert ha =>
    obtain ⟨v, rest, rfl, rfl, rfl⟩ := typesOf_eq_cons hS
    rw [Config.execute_convert]
    exact hin.typed (by simpa [Value.coerce_ty ha] using hU)
  | makeVector =>
    obtain ⟨values, rest, rfl, hv, rfl⟩ := typesOf_eq_append (List.replicate 3 .float) hS
    obtain ⟨xs, hxs, hlen⟩ := spatial_ty hv
    rw [Config.execute_makeVector _ _ _ _ _ _ _ (by simpa using congrArg List.length hv)]
    exact ofValue_typed hin (.of_ok ⟨_, hxs, ofNumbers_three hlen⟩) hU
  | makeRotation =>
    obtain ⟨values, rest, rfl, hv, rfl⟩ := typesOf_eq_append (List.replicate 4 .float) hS
    obtain ⟨xs, hxs, hlen⟩ := spatial_ty hv
    rw [Config.execute_makeRotation _ _ _ _ _ _ _ (by simpa using congrArg List.length hv)]
    exact ofValue_typed hin (.of_ok ⟨_, hxs, ofNumbers_four hlen⟩) hU
  | makeList hi =>
    obtain ⟨values, rest, rfl, rfl, rfl⟩ := typesOf_eq_append _ hS
    rw [List.length_map, Config.execute_makeList]
    exact hin.typed hU
  | call hc =>
    obtain ⟨args, rest, rfl, rfl, rfl⟩ := typesOf_eq_append _ hS
    rw [List.length_map, Config.execute_call]
    exact call_typed hw hin hc hU
  | jump target =>
    rw [Config.execute_jump]
    exact hin.typed ((htarget target rfl).trans hS.symm)
  | jumpIfFalse target =>
    obtain ⟨v, rest, rfl, -, hrest⟩ := typesOf_eq_cons hS
    rw [Config.execute_jumpIfFalse]
    refine hin.typed ?_
    rw [hrest]
    split
    · exact hU
    · exact htarget target rfl
  | ret hk =>
    rw [Config.execute_ret]
    exact leave_typed hin trivial
  | retValue hk =>
    obtain ⟨v, rest, rfl, rfl, -⟩ := typesOf_eq_cons hS
    rw [Config.execute_retValue]
    exact leave_typed hin hk
  | changeState hk hi =>
    rw [Config.execute_changeState]
    exact leave_typed hin hk

structure RunResult.Typed (w : World) (G : List Ty) (outer : BodyKind) (r : RunResult) : Prop where
  globals : typesOf r.store.globals.toList = G
  ending : ∀ ending, r.outcome = .ok ending → ending.exit.Typed outer
  fault : ∀ f, r.outcome = .error f → f.OfRun w G

theorem run_typed (hw : w.Sound G) {budget : Nat} (h : c.Typed w G outer) :
    (run w budget c).Typed w G outer := by
  refine run_rule (fun _ => settle_typed) ?_ ?_ ?_ ?_ ?_ h
  · exact fun _ _ _ hready => ⟨hready.1, by rintro _ ⟨⟩; exact hready.2, by rintro _ ⟨⟩⟩
  · rintro i _ ⟨_, _, F, k, n, s, cs, rfl, hin, -⟩
    exact ⟨hin.frame.globals, by rintro _ ⟨⟩, by rintro _ ⟨⟩; exact .instructionLimit⟩
  · intro i ready d hready he
    have hstep := execute_typed hw hready
    rwa [he] at hstep
  · intro i ready ending store n hready he
    have hstep := execute_typed hw hready
    rw [he] at hstep
    exact ⟨hstep.1, by rintro _ ⟨⟩; exact hstep.2, by rintro _ ⟨⟩⟩
  · intro i ready f store n hready he
    have hstep := execute_typed hw hready
    rw [he] at hstep
    exact ⟨hstep.1, by rintro _ ⟨⟩, by rintro _ ⟨⟩; exact hstep.2⟩

end WorldScript
