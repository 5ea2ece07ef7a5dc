import Mathlib.Data.List.Induction
import WorldScript.Machine

/-! # What each instruction does

One equation for every instruction, on a configuration whose stack is known as far as the instruction
looks at it.
-/

namespace WorldScript

structure Frame where
  store : Store
  locals : Array Value

namespace Frame

def read (F : Frame) (x : Var) : Except Fault Value :=
  match x with
  | .loc slot =>
    match F.locals[slot]? with
    | some v => .ok v
    | none => .error (.noVariable x)
  | .glob slot =>
    match F.store.globals[slot]? with
    | some v => .ok v
    | none => .error (.noVariable x)

def write (F : Frame) (x : Var) (v : Value) : Except Fault Frame :=
  match x with
  | .loc slot =>
    if slot < F.locals.size then .ok { F with locals := F.locals.setIfInBounds slot v }
    else .error (.noVariable x)
  | .glob slot =>
    if slot < F.store.globals.size then
      .ok { F with store := { F.store with globals := F.store.globals.setIfInBounds slot v } }
    else .error (.noVariable x)

def writeComponent (F : Frame) (x : Var) (axis : Axis) (v : Value) : Except Fault Frame :=
  match v.asFloat? with
  | none => .error (.notComponent v.text)
  | some number => do
    let old ← F.read x
    let new ← old.setComponent axis number
    F.write x new

def config (F : Frame) (chunk : Chunk) (position : Nat) (stack : List Value) (callers : List Pending) :
    Config := ⟨F.store, ⟨chunk, position, stack, F.locals⟩, callers⟩

def afterHost (F : Frame) (f : HostFunction) (host : Host) : Frame :=
  { F with store := { F.store with host, energy := F.store.energy + f.cost.energy } }

end Frame

def HostFunction.result (f : HostFunction) (value : Option Value) : Option Value :=
  f.returns.map fun ty => (value.map (Value.coerce ty)).getD ty.defaultValue

namespace Transition

def ofValue (F : Frame) (k : Chunk) (n : Nat) (s : List Value) (cs : List Pending) :
    Except Fault Value → Transition
  | .ok v => .next (F.config k n (v :: s) cs)
  | .error f => .fault f F.store

def ofFrame (F : Frame) (k : Chunk) (n : Nat) (s : List Value) (cs : List Pending) :
    Except Fault Frame → Transition
  | .ok G => .next (G.config k n s cs)
  | .error f => .fault f F.store

end Transition

theorem takeTop_append (values taken stack : List Value) :
    takeTop taken values.length (values.reverse ++ stack) = some (values ++ taken, stack) := by
  induction values using List.reverseRecOn generalizing taken with
  | nil => simp [takeTop]
  | append_singleton values v ih => simp [takeTop, ih]

namespace Config

variable (w : World) (F : Frame) (k : Chunk) (n : Nat) (s : List Value) (cs : List Pending)

theorem read_config (x : Var) : (F.config k n s cs).read x = F.read x := by
  cases x <;> rfl

theorem write_config (x : Var) (v : Value) :
    (F.config k n s cs).write x v = (F.write x v).map fun G => G.config k n s cs := by
  cases x with
  | loc slot =>
    by_cases h : slot < F.locals.size <;> simp [Config.write, Frame.write, Frame.config, h, Except.map]
  | glob slot =>
    by_cases h : slot < F.store.globals.size <;> simp [Config.write, Frame.write, Frame.config, h, Except.map]

theorem popMany_config (values : List Value) :
    (F.config k n (values.reverse ++ s) cs).popMany values.length = .ok (values, F.config k n s cs) := by
  have h := takeTop_append values [] s
  simp only [List.append_nil] at h
  simp only [popMany, Frame.config, h]

theorem execute_push (v : Value) :
    (F.config k n s cs).execute w (.push v) = .next (F.config k n (v :: s) cs) := rfl

theorem execute_load (x : Var) :
    (F.config k n s cs).execute w (.load x) = .ofValue F k n s cs (F.read x) := by
  simp only [execute, read_config]
  cases F.read x <;> rfl

theorem execute_store (x : Var) (v : Value) :
    (F.config k n (v :: s) cs).execute w (.store x) = .ofFrame F k n s cs (F.write x v) := by
  change attempt _ ((F.config k n s cs).write x v) = _
  rw [write_config]
  cases F.write x v <;> rfl

theorem mapTop_config (f : Value → Except Fault Value) (v : Value) :
    (F.config k n (v :: s) cs).mapTop f = .ofValue F k n s cs (f v) := by
  change attempt _ (do return (F.config k n s cs).push (← f v)) = _
  cases f v <;> rfl

theorem execute_getMember (axis : Axis) (v : Value) :
    (F.config k n (v :: s) cs).execute w (.getMember axis) = .ofValue F k n s cs (v.component axis) :=
  mapTop_config F k n s cs _ v

/-- A component is stored by reading, changing and writing its variable. -/
theorem execute_storeMember (x : Var) (axis : Axis) (v : Value) :
    (F.config k n (v :: s) cs).execute w (.storeMember x axis) =
      .ofFrame F k n s cs (F.writeComponent x axis v) := by
  change attempt _ (match v.asFloat? with
    | none => .error (.notComponent v.text)
    | some number => do
      (F.config k n s cs).write x (← (← (F.config k n s cs).read x).setComponent axis number)) = _
  unfold Frame.writeComponent
  cases v.asFloat? with
  | none => rfl
  | some number =>
    simp only [read_config, write_config]
    cases F.read x with
    | error f => rfl
    | ok old =>
      simp only [bind, Except.bind]
      cases old.setComponent axis number with
      | error f => rfl
      | ok new =>
        simp only
        cases F.write x new <;> rfl

theorem execute_pop (v : Value) :
    (F.config k n (v :: s) cs).execute w .pop = .next (F.config k n s cs) := rfl

theorem execute_dup (v : Value) :
    (F.config k n (v :: s) cs).execute w .dup = .next (F.config k n (v :: v :: s) cs) := rfl

theorem execute_unary (op : UnaryOp) (v : Value) :
    (F.config k n (v :: s) cs).execute w (.unary op) = .ofValue F k n s cs (v.unary op) :=
  mapTop_config F k n s cs _ v

theorem execute_binary (op : BinaryOp) (l r : Value) :
    (F.config k n (r :: l :: s) cs).execute w (.binary op) = .ofValue F k n s cs (Value.binary op l r) := by
  change attempt _ (do return (F.config k n s cs).push (← Value.binary op l r)) = _
  cases Value.binary op l r <;> rfl

theorem execute_cast (ty : Ty) (v : Value) :
    (F.config k n (v :: s) cs).execute w (.cast ty) = .ofValue F k n s cs (v.cast ty) :=
  mapTop_config F k n s cs _ v

theorem execute_convert (ty : Ty) (v : Value) :
    (F.config k n (v :: s) cs).execute w (.convert ty) = .next (F.config k n (v.coerce ty :: s) cs) := rfl

theorem makeSpatial_config (values : List Value) :
    (F.config k n (values.reverse ++ s) cs).makeSpatial values.length =
      .ofValue F k n s cs ((numbers values).map ofNumbers) := by
  simp only [makeSpatial, popMany_config, bind, Except.bind]
  cases numbers values <;> rfl

theorem execute_makeVector (values : List Value) (h : values.length = 3) :
    (F.config k n (values.reverse ++ s) cs).execute w .makeVector =
      .ofValue F k n s cs ((numbers values).map ofNumbers) := by
  rw [← makeSpatial_config, h]
  rfl

theorem execute_makeRotation (values : List Value) (h : values.length = 4) :
    (F.config k n (values.reverse ++ s) cs).execute w .makeRotation =
      .ofValue F k n s cs ((numbers values).map ofNumbers) := by
  rw [← makeSpatial_config, h]
  rfl

theorem execute_makeList (items : List Value) :
    (F.config k n (items.reverse ++ s) cs).execute w (.makeList items.length) =
      .next (F.config k n (.list items :: s) cs) := by
  simp only [execute, popMany_config, bind, Except.bind]
  rfl

theorem execute_call (callee : Callee) (args : List Value) :
    (F.config k n (args.reverse ++ s) cs).execute w (.call callee args.length) =
      (F.config k n s cs).call w callee args := by
  simp only [execute, popMany_config]

theorem execute_jump (target : Nat) :
    (F.config k n s cs).execute w (.jump target) = .next (F.config k target s cs) := rfl

theorem execute_jumpIfFalse (target : Nat) (v : Value) :
    (F.config k n (v :: s) cs).execute w (.jumpIfFalse target) =
      .next (F.config k (if v.isTrue then n else target) s cs) := by
  change Transition.next (if v.isTrue then F.config k n s cs else (F.config k n s cs).goTo target) = _
  cases v.isTrue <;> rfl

theorem execute_ret : (F.config k n s cs).execute w .ret = (F.config k n s cs).leave (.ret none) := rfl

theorem execute_retValue (v : Value) :
    (F.config k n (v :: s) cs).execute w .retValue = (F.config k n s cs).leave (.ret (some v)) := rfl

theorem execute_changeState (index : Nat) :
    (F.config k n s cs).execute w (.changeState index) =
      (F.config k n s cs).leave (.changeState index) := rfl

/-- What a host function did before it failed stays done. -/
theorem callHost_config (f : HostFunction) (args : List Value) :
    (F.config k n s cs).callHost f args = match f.impl F.store.host args with
      | (.error problem, host) => .fault (.host problem) (F.afterHost f host).store
      | (.ok value, host) => .next ((F.afterHost f host).config k n ((f.result value).toList ++ s) cs) := by
  have hi : f.impl (F.config k n s cs).store.host args = f.impl F.store.host args := rfl
  unfold callHost
  rw [hi]
  obtain ⟨result, host⟩ := f.impl F.store.host args
  cases result with
  | error problem => rfl
  | ok value => cases hr : f.returns <;> simp [pushResult, HostFunction.result, hr] <;> rfl

end Config

/-- What is kept when a body whose code has ended returns is still so at the next instruction. -/
theorem settle_rule {I : Config → Prop} {Q : Ready → Prop} {store : Store}
    (ended : ∀ a, I ⟨store, a, []⟩ → Q (.ended ⟨.ret none, a.locals⟩ store))
    (resumes : ∀ a p rest, I ⟨store, a, p :: rest⟩ → I ⟨store, p.resume none, rest⟩)
    (fetches : ∀ a callers i, I ⟨store, a, callers⟩ → a.fetch? = some i →
      Q (.instr i ⟨store, { a with position := a.position + 1 }, callers⟩))
    {a : Activation} {callers : List Pending} (h : I ⟨store, a, callers⟩) : Q (settle store a callers) := by
  induction callers generalizing a with
  | nil =>
    unfold settle
    split
    · exact ended a h
    · exact fetches a [] _ h ‹_›
  | cons p rest ih =>
    unfold settle
    split
    · exact ih (resumes a p rest h)
    · exact fetches a (p :: rest) _ h ‹_›

/-- What holds of the configurations of a run decides what the run can result in. -/
theorem run_rule {w : World} {I : Config → Prop} {Q : Ready → Prop} {R : RunResult → Prop}
    (settles : ∀ c, I c → Q (settle c.store c.active c.callers))
    (ended : ∀ ending store n, Q (.ended ending store) → R ⟨.ok ending, store, n⟩)
    (limit : ∀ i c, Q (.instr i c) → R ⟨.error .instructionLimit, c.store, 0⟩)
    (next : ∀ i c d, Q (.instr i c) → c.execute w i = .next d → I d)
    (done : ∀ i c ending store n, Q (.instr i c) → c.execute w i = .done ending store →
      R ⟨.ok ending, store, n⟩)
    (fault : ∀ i c f store n, Q (.instr i c) → c.execute w i = .fault f store → R ⟨.error f, store, n⟩)
    {budget : Nat} {c : Config} (h : I c) : R (run w budget c) := by
  have hready := settles c h
  fun_induction run w budget c with
  | case1 budget c ending store hs => exact ended ending store budget (hs ▸ hready)
  | case2 c i ready hs => exact limit i ready (hs ▸ hready)
  | case3 c i ready hs left d he ih =>
    have hd : I d := next i ready d (hs ▸ hready) he
    exact ih hd (settles d hd)
  | case4 c i ready hs left ending store he => exact done i ready ending store left (hs ▸ hready) he
  | case5 c i ready hs left f store he => exact fault i ready f store left (hs ▸ hready) he

end WorldScript
