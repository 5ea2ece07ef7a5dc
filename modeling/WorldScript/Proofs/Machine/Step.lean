import WorldScript.Proofs.Machine.Typing
import WorldScript.Proofs.Script.Initializers

/-! # What one instruction can do

An instruction goes on in the same body, calls a function of the script, returns to a caller, ends the
outermost body or fails.  This is said once, with what is kept and what causes a fault; what runs keep
follows from it.
-/

namespace WorldScript

def Delivers {α : Type} (E : Fault → Prop) (P : α → Prop) : Except Fault α → Prop
  | .ok a => P a
  | .error f => E f

namespace Delivers

variable {α β : Type} {E E' : Fault → Prop} {P : α → Prop} {R : β → Prop} {r : Except Fault α}

theorem bind {f : α → Except Fault β} (hr : Delivers E P r) (hf : ∀ a, P a → Delivers E R (f a)) :
    Delivers E R (r >>= f) := by
  cases r with
  | ok a => exact hf a hr
  | error e => exact hr

theorem map (h : Delivers E (fun _ => True) r) (f : α → β) : Delivers E (fun _ => True) (r.map f) := by
  cases r with
  | ok a => trivial
  | error e => exact h

theorem weaken (h : Delivers E P r) (he : ∀ f, E f → E' f) : Delivers E' P r := by
  cases r with
  | ok a => exact h
  | error f => exact he f h

theorem getD {r : Option (Except Fault α)} {d : Except Fault α} (hr : ∀ s ∈ r, Delivers E P s)
    (hd : Delivers E P d) : Delivers E P (r.getD d) := by
  cases r with
  | none => exact hd
  | some s => exact hr s rfl

end Delivers

inductive Fault.OfValues : Fault → Prop
  | divisionByZero : OfValues .divisionByZero
  | unaryOperand (op : UnaryOp) (ty : Ty) : OfValues (.unaryOperand op ty)
  | binaryOperands (op : BinaryOp) (left right : Ty) : OfValues (.binaryOperands op left right)
  | cast (source target : Ty) : OfValues (.cast source target)
  | member (ty : Ty) (axis : Axis) : OfValues (.member ty axis)
  | notNumber (ty : Ty) : OfValues (.notNumber ty)

def Calculates {α : Type} (r : Except Fault α) : Prop := Delivers Fault.OfValues (fun _ => True) r

theorem Calculates.ok {α : Type} (a : α) : Calculates (.ok a) := trivial

namespace Value

theorem mismatch_calculates (op : BinaryOp) (l r : Value) :
    Calculates (mismatch op l r) := .binaryOperands op l.ty r.ty

theorem spatial_calculates (op : BinaryOp) (l r : Value) : Calculates (spatial op l r) := by
  unfold spatial
  repeat' split
  all_goals first | trivial | exact .divisionByZero | exact mismatch_calculates ..

theorem arithmetic_calculates (op : BinaryOp) (l r : Value) : Calculates (arithmetic op l r) := by
  rw [arithmetic_eq]
  refine .getD (fun s hs => ?_) (mismatch_calculates op l r)
  obtain ⟨p, -, hs⟩ := Option.bind_eq_some_iff.mp hs
  have hresult := Promoted.compute_eq hs
  split at hresult
  · rw [hresult]
    exact .divisionByZero
  · obtain ⟨v, rfl, -⟩ := hresult
    trivial

theorem combine_calculates (op : BinaryOp) (l r : Value) : Calculates (combine op l r) := by
  unfold combine
  split
  · exact spatial_calculates op l r
  · exact arithmetic_calculates op l r

theorem sum_calculates (l r : Value) : Calculates (sum l r) := by
  unfold sum
  split
  · exact .ok _
  · exact .ok _
  · exact .ok _
  · exact .ok _
  · exact .ok _
  · exact .ok _
  · exact .ok _
  · exact combine_calculates .add _ _

theorem compare_calculates (c : Comparison) (l r : Value) : Calculates (compare c l r) := by
  unfold compare
  split
  · exact .ok _
  · exact mismatch_calculates _ l r

theorem binary_calculates (op : BinaryOp) (l r : Value) : Calculates (binary op l r) := by
  unfold binary
  split
  · exact .ok _
  · exact .ok _
  · exact .ok _
  · exact .ok _
  · exact compare_calculates ..
  · exact compare_calculates ..
  · exact compare_calculates ..
  · exact compare_calculates ..
  · exact sum_calculates l r
  · exact combine_calculates _ l r

theorem unary_calculates (op : UnaryOp) (v : Value) : Calculates (unary op v) := by
  unfold unary
  split <;> first | trivial | exact .unaryOperand ..

theorem cast_calculates (ty : Ty) (v : Value) : Calculates (cast ty v) := by
  unfold cast
  split
  · exact .ok _
  · split <;> first | trivial | exact .cast ..

theorem component_calculates (axis : Axis) (v : Value) : Calculates (component axis v) := by
  unfold component
  split <;> first | trivial | exact .member ..

theorem setComponent_calculates (axis : Axis) (number : Float) (v : Value) :
    Calculates (setComponent axis number v) := by
  unfold setComponent
  split <;> first | trivial | exact .member ..

end Value

theorem numbers_calculates (values : List Value) : Calculates (numbers values) := by
  induction values with
  | nil => exact .ok _
  | cons v rest ih =>
    unfold numbers
    split
    · exact .notNumber v.ty
    · exact ih.map _

namespace Activation

variable {args : List Value}

theorem bind_length {locals : List Param} {values : List Value} (h : bind locals args = .ok values) :
    values.length = locals.length := by
  induction locals generalizing args values with
  | nil =>
    cases args with
    | nil =>
      cases h
      rfl
    | cons v rest => cases h
  | cons l rest ih =>
    cases args with
    | nil =>
      cases h
      simp
    | cons v args =>
      obtain ⟨others, hothers, rfl⟩ := map_ok.mp h
      simp [ih hothers]

theorem enter_ok {chunk : Chunk} {a : Activation} (h : enter chunk args = .ok a) :
    a.chunk = chunk ∧ a.locals.size = chunk.locals.length := by
  obtain ⟨values, hvalues, rfl⟩ := map_ok.mp h
  exact ⟨rfl, bind_length hvalues⟩

/-- Only too many arguments keep a body from being entered. -/
theorem enter_error {chunk : Chunk} {f : Fault} (h : enter chunk args = .error f) :
    f = .tooManyArguments := by
  suffices hs : Delivers (· = .tooManyArguments) (fun _ => True) (enter chunk args) by
    rw [h] at hs
    exact hs
  refine Delivers.map ?_ _
  generalize chunk.locals = locals
  clear h
  induction locals generalizing args with
  | nil =>
    cases args with
    | nil => trivial
    | cons v rest => rfl
  | cons l rest ih =>
    cases args with
    | nil => trivial
    | cons v args => exact ih.map _

theorem mem_of_fetch? {a : Activation} {i : Instr Nat} (h : a.fetch? = some i) : i ∈ a.chunk.code := by
  obtain ⟨e, he, rfl⟩ := Option.map_eq_some_iff.mp h
  exact Array.mem_map.mpr ⟨e, Array.mem_of_getElem? he, rfl⟩

end Activation

namespace Config

/-- What an instruction keeps that neither calls a function of the script nor returns. -/
structure SameShape (c d : Config) : Prop where
  globals : d.store.globals.size = c.store.globals.size
  chunk : d.active.chunk = c.active.chunk
  locals : d.active.locals.size = c.active.locals.size
  callers : d.callers = c.callers

def Lacks (c : Config) : Var → Prop
  | .loc slot => c.active.locals.size ≤ slot
  | .glob slot => c.store.globals.size ≤ slot

inductive Raises (c : Config) (i : Instr Nat) : Fault → Prop
  | values {f : Fault} (h : f.OfValues) : Raises c i f
  | notComponent (text : String) : Raises c i (.notComponent text)
  | stackUnderflow : Raises c i .stackUnderflow
  | noVariable {x : Var} (ht : i.Touches x) (hl : c.Lacks x) : Raises c i (.noVariable x)
  | callDepth (h : maxCallDepth ≤ c.callers.length) : Raises c i .callDepth
  | tooManyArguments : Raises c i .tooManyArguments
  | noFunction (index : Nat) : Raises c i (.noFunction index)
  | host (problem : HostFault) : Raises c i (.host problem)
  | functionChangedState (name : String) : Raises c i (.functionChangedState name)

inductive Outcome (w : World) (c : Config) (i : Instr Nat) : Transition → Prop
  | stay {d : Config} (h : c.SameShape d) : Outcome w c i (.next d)
  | call {index count : Nat} {f : ScriptFunction Chunk} {d : Config} {a : Activation}
      (hi : i = .call (.script index) count) (hf : w.program.functions[index]? = some f) (hd : c.SameShape d)
      (hdepth : c.callers.length < maxCallDepth) (hchunk : a.chunk = f.code)
      (hlocals : a.locals.size = f.code.locals.length) :
      Outcome w c i (.next ⟨d.store, a, ⟨d.active, f.signature⟩ :: d.callers⟩)
  | resume {d : Config} {p : Pending} {rest : List Pending} {value : Option Value} (hd : c.SameShape d)
      (hc : d.callers = p :: rest) : Outcome w c i (.next ⟨d.store, p.resume value, rest⟩)
  | done {d : Config} {ending : Ending} (hd : c.SameShape d)
      (hexit : ∀ index, ending.exit = .changeState index → i = .changeState index) :
      Outcome w c i (.done ending d.store)
  | fault {f : Fault} {store : Store} (h : c.Raises i f) : Outcome w c i (.fault f store)

variable {w : World} {c d : Config} {i : Instr Nat}

theorem SameShape.refl (c : Config) : c.SameShape c := ⟨rfl, rfl, rfl, rfl⟩

theorem SameShape.push (h : c.SameShape d) (v : Value) : c.SameShape (d.push v) :=
  ⟨h.globals, h.chunk, h.locals, h.callers⟩

theorem SameShape.goTo (h : c.SameShape d) (position : Nat) : c.SameShape (d.goTo position) :=
  ⟨h.globals, h.chunk, h.locals, h.callers⟩

theorem SameShape.pop (h : c.SameShape d) : Delivers (c.Raises i) (fun r => c.SameShape r.2) d.pop := by
  unfold Config.pop
  split
  · exact .stackUnderflow
  · exact ⟨h.globals, h.chunk, h.locals, h.callers⟩

theorem SameShape.popMany (h : c.SameShape d) (count : Nat) :
    Delivers (c.Raises i) (fun r => c.SameShape r.2) (d.popMany count) := by
  unfold Config.popMany
  split
  · exact .stackUnderflow
  · exact ⟨h.globals, h.chunk, h.locals, h.callers⟩

theorem SameShape.read (h : c.SameShape d) {x : Var} (hx : i.Touches x) :
    Delivers (c.Raises i) (fun _ => True) (d.read x) := by
  unfold Config.read
  dsimp only
  split
  · trivial
  · rename_i hnone
    refine .noVariable hx ?_
    cases x with
    | loc slot => exact Nat.le_trans (Nat.le_of_eq h.locals.symm) (Array.getElem?_eq_none_iff.mp hnone)
    | glob slot => exact Nat.le_trans (Nat.le_of_eq h.globals.symm) (Array.getElem?_eq_none_iff.mp hnone)

theorem SameShape.write (h : c.SameShape d) {x : Var} (hx : i.Touches x) (v : Value) :
    Delivers (c.Raises i) c.SameShape (d.write x v) := by
  unfold Config.write
  split
  · split
    · exact ⟨h.globals, h.chunk, (Array.size_setIfInBounds ..).trans h.locals, h.callers⟩
    · rename_i hlt
      exact .noVariable hx (Nat.le_trans (Nat.le_of_eq h.locals.symm) (Nat.le_of_not_lt hlt))
  · split
    · exact ⟨(Array.size_setIfInBounds ..).trans h.globals, h.chunk, h.locals, h.callers⟩
    · rename_i hlt
      exact .noVariable hx (Nat.le_trans (Nat.le_of_eq h.globals.symm) (Nat.le_of_not_lt hlt))

theorem raises_of_calculates {α : Type} {r : Except Fault α} (h : Calculates r) :
    Delivers (c.Raises i) (fun _ => True) r :=
  h.weaken fun _ => .values

theorem attempt_outcome {r : Except Fault Config} (h : Delivers (c.Raises i) c.SameShape r) :
    Outcome w c i (c.attempt r) := by
  cases r with
  | ok d => exact .stay h
  | error f => exact .fault h

theorem mapTop_outcome {f : Value → Except Fault Value} (hf : ∀ v, Calculates (f v)) :
    Outcome w c i (c.mapTop f) :=
  attempt_outcome <| (SameShape.refl c).pop.bind fun r hr =>
    (raises_of_calculates (hf r.1)).bind fun v _ => hr.push v

theorem makeSpatial_outcome (count : Nat) : Outcome w c i (c.makeSpatial count) :=
  attempt_outcome <| ((SameShape.refl c).popMany count).bind fun r hr =>
    (raises_of_calculates (numbers_calculates r.1)).bind fun _ _ => hr.push _

theorem leave_outcome (h : c.SameShape d) {exit : Exit}
    (he : ∀ index, exit = .changeState index → i = .changeState index) : Outcome w c i (d.leave exit) := by
  unfold leave
  split
  · exact .done h he
  · rename_i hcallers
    exact .resume h hcallers
  · exact .fault (.functionChangedState _)

theorem callHost_outcome (h : c.SameShape d) (f : HostFunction) (args : List Value) :
    Outcome w c i (d.callHost f args) := by
  unfold callHost
  dsimp only
  split
  · exact .fault (.host _)
  · refine .stay ?_
    unfold pushResult
    split <;> exact ⟨h.globals, h.chunk, h.locals, h.callers⟩

theorem callScript_outcome {index count : Nat} {f : ScriptFunction Chunk}
    (hf : w.program.functions[index]? = some f) (h : c.SameShape d) (args : List Value) :
    Outcome w c (.call (.script index) count) (d.callScript f args) := by
  unfold callScript
  rw [h.callers]
  split
  · rename_i hdepth
    exact .fault (.callDepth hdepth)
  · rename_i hdepth
    split
    · rename_i problem hproblem
      rw [Activation.enter_error hproblem]
      exact .fault .tooManyArguments
    · rename_i a ha
      obtain ⟨hchunk, hlocals⟩ := Activation.enter_ok ha
      rw [← h.callers]
      exact .call rfl hf h (Nat.lt_of_not_le hdepth) hchunk hlocals

theorem call_outcome (h : c.SameShape d) (callee : Callee) (count : Nat) (args : List Value) :
    Outcome w c (.call callee count) (d.call w callee args) := by
  unfold call
  cases callee with
  | host id =>
    dsimp only
    split
    · exact callHost_outcome h _ args
    · exact .fault (.noFunction id)
  | script index =>
    dsimp only
    split
    · rename_i f hf
      exact callScript_outcome hf h args
    · exact .fault (.noFunction index)

/-- Every instruction has one of these outcomes. -/
theorem execute_outcome (w : World) (c : Config) (i : Instr Nat) : Outcome w c i (c.execute w i) := by
  have hrefl := SameShape.refl c
  cases i with
  | push v => exact .stay (hrefl.push v)
  | load x =>
    have hx : Instr.Touches x (.load x : Instr Nat) := rfl
    exact attempt_outcome <| (hrefl.read hx).bind fun v _ => hrefl.push v
  | store x =>
    have hx : Instr.Touches x (.store x : Instr Nat) := rfl
    exact attempt_outcome <| hrefl.pop.bind fun r hr => hr.write hx r.1
  | getMember axis => exact mapTop_outcome (Value.component_calculates axis)
  | storeMember x axis =>
    have hx : Instr.Touches x (.storeMember x axis : Instr Nat) := rfl
    refine attempt_outcome <| hrefl.pop.bind fun r hr => ?_
    dsimp only
    split
    · exact .notComponent _
    · rename_i number _
      refine (hr.read hx).bind fun old _ => ?_
      exact (raises_of_calculates (Value.setComponent_calculates axis number old)).bind fun new _ =>
        hr.write hx new
  | pop => exact attempt_outcome <| hrefl.pop.bind fun r hr => hr
  | dup => exact attempt_outcome <| hrefl.pop.bind fun r hr => hrefl.push r.1
  | unary op => exact mapTop_outcome (Value.unary_calculates op)
  | binary op =>
    refine attempt_outcome <| hrefl.pop.bind fun r hr => hr.pop.bind fun l hl => ?_
    exact (raises_of_calculates (Value.binary_calculates op l.1 r.1)).bind fun v _ => hl.push v
  | cast ty => exact mapTop_outcome (Value.cast_calculates ty)
  | convert ty => exact mapTop_outcome fun v => .ok _
  | makeVector => exact makeSpatial_outcome 3
  | makeRotation => exact makeSpatial_outcome 4
  | makeList count => exact attempt_outcome <| (hrefl.popMany count).bind fun r hr => hr.push _
  | call callee count =>
    have hpop := hrefl.popMany (i := .call callee count) count
    rw [execute]
    split
    · rename_i f hf
      rw [hf] at hpop
      exact .fault hpop
    · rename_i args below hargs
      rw [hargs] at hpop
      exact call_outcome hpop callee count args
  | jump target => exact .stay (hrefl.goTo target)
  | jumpIfFalse target =>
    refine attempt_outcome <| hrefl.pop.bind fun r hr => ?_
    change c.SameShape (if r.1.isTrue then r.2 else r.2.goTo target)
    split
    · exact hr
    · exact hr.goTo target
  | ret => exact leave_outcome hrefl fun index he => by cases he
  | retValue =>
    have hpop := hrefl.pop (i := .retValue)
    rw [execute]
    split
    · rename_i f hf
      rw [hf] at hpop
      exact .fault hpop
    · rename_i v below hv
      rw [hv] at hpop
      exact leave_outcome hpop fun index he => by cases he
  | changeState index => exact leave_outcome hrefl fun other he => by cases he; rfl

end Config

def Fault.OfCode (f : Fault) : Prop := ∃ (c : Config) (i : Instr Nat), c.Raises i f

theorem Fault.not_ofCode_stateChangeLimit : ¬ Fault.stateChangeLimit.OfCode := by
  rintro ⟨c, i, h⟩
  cases h with
  | values h => cases h

theorem Fault.not_ofCode_instructionLimit : ¬ Fault.instructionLimit.OfCode := by
  rintro ⟨c, i, h⟩
  cases h with
  | values h => cases h

/-- A run fails over its budget only when that is used up. -/
theorem run_error {w : World} {budget : Nat} {c : Config} {f : Fault}
    (h : (run w budget c).outcome = .error f) :
    f.OfCode ∨ f = .instructionLimit ∧ (run w budget c).budget = 0 := by
  refine run_rule (I := fun _ => True) (Q := fun _ => True)
    (R := fun r => r.outcome = .error f → f.OfCode ∨ f = .instructionLimit ∧ r.budget = 0)
    (fun _ _ => trivial) ?_ ?_ (fun _ _ _ _ _ => trivial) ?_ ?_ trivial h
  · rintro _ _ _ _ ⟨⟩
  · rintro _ _ _ ⟨⟩
    exact .inr ⟨rfl, rfl⟩
  · rintro _ _ _ _ _ _ _ ⟨⟩
  · rintro i ready _ _ _ _ he ⟨⟩
    have hout := Config.execute_outcome w ready i
    rw [he] at hout
    cases hout with
    | fault hraises => exact .inl ⟨ready, i, hraises⟩

namespace Machine

variable {w : World} {m after : Machine} {chunk : Chunk} {args : List Value} {f : Fault} {h : Handler Chunk}

def afterRun (m : Machine) (r : RunResult) : Machine := { m with store := r.store, budget := r.budget }

/-- A chunk that is entered runs with the budget and the store of the machine. -/
theorem runChunk_eq {a : Activation} (h : Activation.enter chunk args = .ok a) (m : Machine) :
    runChunk w chunk args m =
      match (run w m.budget ⟨m.store, a, []⟩).outcome with
      | .ok ending => .ok ending (m.afterRun (run w m.budget ⟨m.store, a, []⟩))
      | .error f => .error f (m.afterRun (run w m.budget ⟨m.store, a, []⟩)) := by
  unfold runChunk
  rw [run_get_bind]
  simp only [h]
  rw [run_set_bind]
  cases (run w m.budget ⟨m.store, a, []⟩).outcome with
  | ok ending => rfl
  | error f => rfl

theorem firstValues_cons (w : World) (g : GlobalSlot Chunk) (rest : List (GlobalSlot Chunk)) :
    firstValues w (g :: rest) = firstValues w [g] >>= fun _ => firstValues w rest := by
  simp [firstValues]

/-- The run of a chunk on a machine; a chunk that does not take the arguments leaves all as it is. -/
def chunkRun (w : World) (chunk : Chunk) (args : List Value) (m : Machine) : RunResult :=
  match Activation.enter chunk args with
  | .ok a => run w m.budget ⟨m.store, a, []⟩
  | .error f => ⟨.error f, m.store, m.budget⟩

theorem runChunk_of_ok {ending : Ending} (h : (chunkRun w chunk args m).outcome = .ok ending) :
    runChunk w chunk args m = .ok ending (m.afterRun (chunkRun w chunk args m)) := by
  unfold chunkRun at h ⊢
  cases henter : Activation.enter chunk args with
  | ok a =>
    simp only [henter] at h ⊢
    rw [runChunk_eq henter, h]
  | error f => simp [henter] at h

theorem runChunk_of_error (h : (chunkRun w chunk args m).outcome = .error f) :
    runChunk w chunk args m = .error f (m.afterRun (chunkRun w chunk args m)) := by
  unfold chunkRun at h ⊢
  cases henter : Activation.enter chunk args with
  | ok a =>
    simp only [henter] at h ⊢
    rw [runChunk_eq henter, h]
  | error g =>
    simp only [henter, Except.error.injEq] at h ⊢
    subst h
    unfold runChunk
    rw [run_get_bind, henter]
    rfl

/-- A chunk fails over its code, or over a budget that is used up. -/
theorem chunkRun_error (h : (chunkRun w chunk args m).outcome = .error f) :
    f.OfCode ∨ f = .instructionLimit ∧ (chunkRun w chunk args m).budget = 0 := by
  unfold chunkRun at h ⊢
  cases henter : Activation.enter chunk args with
  | ok a =>
    simp only [henter] at h ⊢
    exact run_error h
  | error g =>
    simp only [henter, Except.error.injEq] at h
    subst h
    rw [Activation.enter_error henter]
    exact .inl ⟨⟨m.store, ⟨chunk, 0, [], #[]⟩, []⟩, .pop, .tooManyArguments⟩

theorem runHandler_of_ok {ending : Ending} (hr : (chunkRun w h.code args m).outcome = .ok ending) :
    runHandler w h args m = .ok ending.exit
      { m.afterRun (chunkRun w h.code args m) with
        lastLocals := (h.code.locals.map Param.name).zip ending.locals.toList } := by
  unfold runHandler
  rw [run_bind_of_ok (runChunk_of_ok hr)]
  rfl

theorem runHandler_of_error (hr : (chunkRun w h.code args m).outcome = .error f) :
    runHandler w h args m = .error f (m.afterRun (chunkRun w h.code args m)) := by
  unfold runHandler
  exact run_bind_of_error (runChunk_of_error hr)

/-- A handler that comes to its end leaves what the run of its code leaves, in the same state. -/
theorem runHandler_ok {exit : Exit} (hr : runHandler w h args m = .ok exit after) :
    ∃ ending, (chunkRun w h.code args m).outcome = .ok ending ∧ exit = ending.exit ∧
      after = { m.afterRun (chunkRun w h.code args m) with
        lastLocals := (h.code.locals.map Param.name).zip ending.locals.toList } := by
  cases ho : (chunkRun w h.code args m).outcome with
  | ok ending =>
    rw [runHandler_of_ok ho] at hr
    cases hr
    exact ⟨ending, rfl, rfl, rfl⟩
  | error f =>
    rw [runHandler_of_error ho] at hr
    cases hr

theorem runHandler_error (hr : runHandler w h args m = .error f after) :
    (chunkRun w h.code args m).outcome = .error f ∧ after = m.afterRun (chunkRun w h.code args m) := by
  cases ho : (chunkRun w h.code args m).outcome with
  | ok ending =>
    rw [runHandler_of_ok ho] at hr
    cases hr
  | error g =>
    rw [runHandler_of_error ho] at hr
    cases hr
    exact ⟨rfl, rfl⟩

def afterFirstValue (m : Machine) (r : RunResult) (ty : Ty) (exit : Exit) : Machine :=
  { m with
    store := { r.store with
      globals := r.store.globals.push <| match exit with
        | .ret (some v) => v.coerce ty
        | _ => ty.defaultValue }
    budget := r.budget }

/-- A variable starts with what its initializer returns. -/
theorem firstValues_ok {g : GlobalSlot Chunk} (h : firstValues w [g] m = .ok () after) :
    ∃ ending, (chunkRun w g.init [] m).outcome = .ok ending ∧
      after = m.afterFirstValue (chunkRun w g.init [] m) g.ty ending.exit := by
  obtain ⟨ending, m₁, h₁, h⟩ := run_bind_ok h
  cases ho : (chunkRun w g.init [] m).outcome with
  | error f =>
    rw [runChunk_of_error ho] at h₁
    cases h₁
  | ok e =>
    rw [runChunk_of_ok ho] at h₁
    cases h₁
    obtain ⟨_, m₂, h₂, h⟩ := run_bind_ok h
    cases h₂
    obtain ⟨-, rfl⟩ := run_pure_ok h
    exact ⟨ending, rfl, rfl⟩

theorem firstValues_error {g : GlobalSlot Chunk} (h : firstValues w [g] m = .error f after) :
    (chunkRun w g.init [] m).outcome = .error f ∧ after = m.afterRun (chunkRun w g.init [] m) := by
  unfold firstValues at h
  cases ho : (chunkRun w g.init [] m).outcome with
  | ok ending =>
    rw [run_bind_of_ok (runChunk_of_ok ho)] at h
    cases h
  | error g =>
    rw [run_bind_of_error (runChunk_of_error ho)] at h
    cases h
    exact ⟨rfl, rfl⟩

end Machine

end WorldScript
