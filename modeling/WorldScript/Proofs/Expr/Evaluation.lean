import WorldScript.Proofs.Code.Typing
import WorldScript.Proofs.Machine.Execution

/-! # What expressions mean

An expression is evaluated on its tree: operands from left to right, both sides of every operator, the
old value of a place before the right side of a compound assignment.  The code for the value of an
expression adds just that value to the stack, and the code for its effect leaves the stack as it was.
-/

namespace WorldScript

def Eval.load (x : Var) : Eval Value := do Eval.lift ((← get).read x)

namespace Place

def read : Place → Eval Value
  | .var x => Eval.load x
  | .member x axis => do Eval.lift ((← Eval.load x).component axis)

def write (v : Value) : Place → Eval Unit
  | .var x => do set (← Eval.lift ((← get).write x v))
  | .member x axis => do set (← Eval.lift ((← get).writeComponent x axis v))

end Place

def Eval.one {α : Type} : Option α → Eval α
  | some a => pure a
  | none => throw .stuck

/-- What a compound assignment stores: the result of its operator, converted back to the type of the
place where the operator leads to another type. -/
def BinaryOp.stored (op : BinaryOp) (target found : Option Ty) (result : Value) : Value :=
  match target, found with
  | some target, some found =>
    if op.resultTy? target found = some target then result else result.coerce target
  | _, _ => result

namespace Expr

mutual

def eval (w : World) (fuel depth : Nat) : Expr → Eval Value
  | .literal _ v => return v
  | .load _ x => Eval.load x
  | .member _ base axis => do Eval.lift ((← base.eval w fuel depth).component axis)
  | .unary _ op operand => do Eval.lift ((← operand.eval w fuel depth).unary op)
  | .binary _ op left right => do
    let l ← left.eval w fuel depth
    let r ← right.eval w fuel depth
    Eval.lift (Value.binary op l r)
  | .assign _ place none value => do
    let v ← value.eval w fuel depth
    place.write v
    return v
  | .assign info place (some op) value => do
    let old ← place.read
    let right ← value.eval w fuel depth
    let result ← Eval.lift (Value.binary op old right)
    let stored := op.stored info.ty value.ty result
    place.write stored
    return stored
  | .step info place s first => do
    let old ← place.read
    let one ← Eval.one (info.ty.bind Ty.one?)
    let new ← Eval.lift (Value.binary s.op old one)
    place.write new
    return if first then new else old
  | .cast _ target operand => do Eval.lift ((← operand.eval w fuel depth).cast target)
  | .convert _ target operand => return (← operand.eval w fuel depth).coerce target
  | .call _ callee args => do
    let values ← evalAll w fuel depth args
    Eval.one (← w.callToEnd fuel depth callee values)
  | .vector _ parts | .rotation _ parts => do
    let values ← evalAll w fuel depth parts
    Eval.lift ((numbers values).map ofNumbers)
  | .list _ items => return .list (← evalAll w fuel depth items)
  | .label _ _ => throw .stuck

def evalAll (w : World) (fuel depth : Nat) : List Expr → Eval (List Value)
  | [] => return []
  | e :: rest => do
    let v ← e.eval w fuel depth
    let others ← evalAll w fuel depth rest
    return v :: others

end

/-- What an expression does besides having a value; a call need not have one. -/
def effect (w : World) (fuel depth : Nat) : Expr → Eval Unit
  | .call _ callee args => do
    let values ← evalAll w fuel depth args
    let _ ← w.callToEnd fuel depth callee values
  | e => do let _ ← e.eval w fuel depth

theorem evalAll_length {w : World} {fuel depth : Nat} {es : List Expr} {F G : Frame} {values : List Value}
    (h : evalAll w fuel depth es F = .ok values G) : values.length = es.length := by
  induction es generalizing F G values with
  | nil =>
    obtain ⟨rfl, -⟩ := run_pure_ok h
    rfl
  | cons e rest ih =>
    obtain ⟨v, F₁, -, h⟩ := run_bind_ok h
    obtain ⟨others, F₂, ho, h⟩ := run_bind_ok h
    obtain ⟨rfl, -⟩ := run_pure_ok h
    simp [ih ho]

end Expr

def Chunk.Holds (k : Chunk) (resolve : Label → Except Label Nat) (start : Nat) (code : List (Instr Label)) :
    Prop :=
  ∀ (i : Nat) (instr : Instr Label), code[i]? = some instr →
    ∃ e, k.entries[start + i]? = some e ∧ instr.retarget resolve = .ok e.instr

namespace Chunk.Holds

variable {k : Chunk} {resolve : Label → Except Label Nat} {start : Nat} {a b : List (Instr Label)}

theorem left (h : k.Holds resolve start (a ++ b)) : k.Holds resolve start a := by
  intro i instr hi
  have hlt : i < a.length := (List.getElem?_eq_some_iff.mp hi).1
  exact h i instr (by rw [List.getElem?_append_left hlt, hi])

theorem right (h : k.Holds resolve start (a ++ b)) : k.Holds resolve (start + a.length) b := by
  intro i instr hi
  have hget : (a ++ b)[a.length + i]? = some instr := by
    rw [List.getElem?_append_right (Nat.le_add_right _ _), Nat.add_sub_cancel_left, hi]
  obtain ⟨e, he, hr⟩ := h _ instr hget
  exact ⟨e, by rw [← he, Nat.add_assoc], hr⟩

theorem head {i : Instr Label} (h : k.Holds resolve start (i :: a)) :
    ∃ e, k.entries[start]? = some e ∧ i.retarget resolve = .ok e.instr := h 0 i rfl

end Chunk.Holds

/-- Code does what an account says: from a stack with the values `before` on top it goes on to its end,
with the values `leaves a` in their place. -/
def Implements {α : Type} (w : World) (fuel depth : Nat) (code : List (Instr Label)) (before : List Value)
    (m : Eval α) (leaves : α → List Value) : Prop :=
  ∀ (k : Chunk) (resolve : Label → Except Label Nat) (start : Nat) (s : List Value) (cs : List Pending)
    (F : Frame), cs.length = depth → k.Holds resolve start code →
    Follows fuel ((F.config k start (before ++ s) cs).course w)
      (fun a G => (G.config k (start + code.length) (leaves a ++ s) cs).course w) (m F)

namespace Implements

variable {α β : Type} {w : World} {fuel depth : Nat} {before : List Value} {leaves : α → List Value}
  {m : Eval α} {c₁ c₂ code : List (Instr Label)} {i : Instr Label} {j : Instr Nat}

theorem nil {a : α} (h : leaves a = before) : Implements w fuel depth [] before (pure a) leaves := by
  intro k resolve start s cs F _ _
  rw [← h]
  exact .pure (.refl _)

theorem bind {g : α → Eval β} {middle : α → List Value} {leaves : β → List Value}
    (h : Implements w fuel depth c₁ before m middle)
    (hg : ∀ a F G, m F = .ok a G → Implements w fuel depth c₂ (middle a) (g a) leaves) :
    Implements w fuel depth (c₁ ++ c₂) before (m >>= g) leaves := by
  intro k resolve start s cs F hd hc
  have hm := h k resolve start s cs F hd hc.left
  refine hm.bind fun a G ha => ?_
  have hnext := hg a F G ha k resolve (start + c₁.length) s cs G hd hc.right
  rw [List.length_append, ← Nat.add_assoc]
  exact hnext

theorem map {f : α → β} {leaves : β → List Value}
    (h : Implements w fuel depth code before m fun a => leaves (f a)) :
    Implements w fuel depth code before (do return f (← m)) leaves := by
  have hb : Implements w fuel depth (code ++ []) before (do return f (← m)) leaves :=
    h.bind fun a _ _ _ => .nil rfl
  rwa [List.append_nil] at hb

/-- Code that only moves values comes first. -/
theorem silent {middle : List Value} (h : Implements w fuel depth c₁ before (pure ()) fun _ => middle)
    (h' : Implements w fuel depth c₂ middle m leaves) : Implements w fuel depth (c₁ ++ c₂) before m leaves :=
  h.bind fun _ _ _ _ => h'

theorem above (h : Implements w fuel depth code before m leaves) (below : List Value) :
    Implements w fuel depth code (before ++ below) m fun a => leaves a ++ below := by
  intro k resolve start s cs F hd hc
  have hm := h k resolve start (below ++ s) cs F hd hc
  simpa only [List.append_assoc] using hm

theorem instr (hij : ∀ resolve : Label → Except Label Nat, i.retarget resolve = .ok j)
    (h : ∀ (F : Frame) k n s cs, cs.length = depth →
      Follows fuel (((F.config k n (before ++ s) cs).execute w j).course w) (fun a G =>
        (G.config k n (leaves a ++ s) cs).course w) (m F)) :
    Implements w fuel depth [i] before m leaves := by
  intro k resolve start s cs F hd hc
  obtain ⟨e, he, hr⟩ := hc.head
  have hj : j = e.instr := Except.ok.inj ((hij resolve).symm.trans hr)
  have hstep : Costs 1 ((F.config k start (before ++ s) cs).course w)
      (((F.config k (start + 1) (before ++ s) cs).execute w j).course w) := hj ▸ .instr he
  exact (h F k (start + 1) s cs hd).behind hstep

/-- An instruction that replaces some values by another one. -/
theorem value {r : Frame → Except Fault Value}
    (hij : ∀ resolve : Label → Except Label Nat, i.retarget resolve = .ok j)
    (h : ∀ (F : Frame) k n s cs, (F.config k n (before ++ s) cs).execute w j = .ofValue F k n s cs (r F)) :
    Implements w fuel depth [i] before (fun F => Eval.lift (r F) F) fun v => [v] := by
  refine .instr hij fun F k n s cs _ => ?_
  rw [h]
  cases r F with
  | ok v => exact .pure (.refl _)
  | error f => exact ⟨0, .refl _⟩

/-- An instruction that moves a value into a variable. -/
theorem change {i : Instr Label} {j : Instr Nat} {r : Frame → Except Fault Frame}
    (hij : ∀ resolve : Label → Except Label Nat, i.retarget resolve = .ok j)
    (h : ∀ (F : Frame) k n s cs, (F.config k n (before ++ s) cs).execute w j = .ofFrame F k n s cs (r F)) :
    Implements w fuel depth [i] before (do set (← Eval.lift (r (← get)))) fun _ => [] := by
  refine .instr hij fun F k n s cs _ => ?_
  rw [h]
  change Follows fuel _ _ ((Eval.lift (r F) >>= set) F)
  cases r F with
  | ok G => exact .pure (.refl _)
  | error f => exact ⟨0, .refl _⟩

theorem push (v : Value) : Implements w fuel depth [.push v] [] (pure ()) fun _ => [v] :=
  .instr (fun _ => rfl) fun F k n s cs _ => by
    rw [Config.execute_push]
    exact .pure (.refl _)

theorem binary (op : BinaryOp) (l r : Value) :
    Implements w fuel depth [.binary op] [r, l] (Eval.lift (Value.binary op l r)) fun v => [v] :=
  .value (r := fun _ => Value.binary op l r) (fun _ => rfl) fun F k n s cs =>
    Config.execute_binary w F k n s cs op l r

theorem pop (v : Value) : Implements w fuel depth [.pop] [v] (pure ()) fun _ => [] :=
  .instr (fun _ => rfl) fun F k n s cs _ => by
    rw [List.singleton_append, Config.execute_pop]
    exact .pure (.refl _)

theorem dup (v : Value) : Implements w fuel depth [.dup] [v] (pure ()) fun _ => [v, v] :=
  .instr (fun _ => rfl) fun F k n s cs _ => by
    rw [List.singleton_append, Config.execute_dup]
    exact .pure (.refl _)

theorem call (callee : Callee) (args : List Value) :
    Implements w fuel depth [.call callee args.length] args.reverse (w.callToEnd fuel depth callee args)
      Option.toList :=
  .instr (fun _ => rfl) fun F k n s cs hd => by
    rw [Config.execute_call, ← hd]
    exact callToEnd_follows callee args

theorem var (x : Var) : Implements w fuel depth [.load x] [] (Eval.load x) fun v => [v] :=
  .value (r := fun F => F.read x) (fun _ => rfl) fun F k n s cs => Config.execute_load w F k n s cs x

theorem component (axis : Axis) (v : Value) :
    Implements w fuel depth [.getMember axis] [v] (Eval.lift (v.component axis)) fun v => [v] :=
  .value (r := fun _ => v.component axis) (fun _ => rfl) fun F k n s cs =>
    Config.execute_getMember w F k n s cs axis v

theorem load (p : Place) : Implements w fuel depth p.loadCode [] p.read fun v => [v] := by
  cases p with
  | var x => exact .var x
  | member x axis => exact (Implements.var x).bind fun v _ _ _ => .component axis v

theorem store (p : Place) (v : Value) : Implements w fuel depth p.storeCode [v] (p.write v) fun _ => [] := by
  cases p with
  | var x =>
    exact .change (r := fun F => F.write x v) (fun _ => rfl) fun F k n s cs =>
      Config.execute_store w F k n s cs x v
  | member x axis =>
    exact .change (r := fun F => F.writeComponent x axis v) (fun _ => rfl) fun F k n s cs =>
      Config.execute_storeMember w F k n s cs x axis v

end Implements

structure World.Serves (w : World) (Γ : Layout) : Prop where
  hosts : Γ.hosts = w.registry.functions
  functions : Γ.functions = w.program.functions.map ScriptFunction.signature

variable {w : World} {fuel depth : Nat} {Γ : Layout} {args : List Value} {F G : Frame} {r : Option Value}

theorem HostFunction.call_value {f : HostFunction} (h : f.call args F = .ok r G) :
    r.isSome = f.returns.isSome := by
  unfold HostFunction.call at h
  split at h
  · cases h
  · cases h
    simp [HostFunction.result]

theorem ScriptFunction.call_value {body : Chunk → Eval Exit} {f : ScriptFunction Chunk}
    (h : f.call body depth args F = .ok r G) : r.isSome = f.signature.returns.isSome := by
  unfold ScriptFunction.call at h
  by_cases hd : maxCallDepth ≤ depth
  · rw [if_pos hd] at h
    cases h
  · rw [if_neg hd] at h
    cases hb : Activation.bind f.code.locals args with
    | error problem =>
      rw [hb] at h
      cases h
    | ok locals =>
      rw [hb] at h
      obtain ⟨exit, _, -, h⟩ := run_bind_ok h
      cases exit with
      | ret value =>
        obtain ⟨rfl, -⟩ := run_pure_ok h
        simp
      | changeState index => cases h

/-- A call has a value if its callee is said to return one. -/
theorem World.Serves.call_value (hw : w.Serves Γ) {callee : Callee} {params : List Ty} {returns : Option Ty}
    (hc : Γ.calleeTy callee = some (params, returns)) (h : w.callToEnd fuel depth callee args F = .ok r G) :
    r.isSome = returns.isSome := by
  cases callee with
  | host id =>
    simp only [Layout.calleeTy, hw.hosts, Option.map_eq_some_iff, Prod.mk.injEq] at hc
    obtain ⟨f, hf, -, rfl⟩ := hc
    simp only [World.callToEnd, World.call, hf] at h
    exact HostFunction.call_value h
  | script index =>
    simp only [Layout.calleeTy, hw.functions, List.getElem?_map, Option.map_eq_some_iff, Prod.mk.injEq] at hc
    obtain ⟨signature, ⟨f, hf, rfl⟩, -, rfl⟩ := hc
    simp only [World.callToEnd, World.call, hf] at h
    exact ScriptFunction.call_value h

def Coded {α : Type} (w : World) (fuel depth : Nat) (r : Except Diagnostic (List (Instr Label))) (m : Eval α)
    (leaves : α → List Value) : Prop :=
  ∃ code, r = .ok code ∧ Implements w fuel depth code [] m leaves

theorem Coded.andThen {α β : Type} {r : Except Diagnostic (List (Instr Label))} {m : Eval α} {g : α → Eval β}
    {code : List (Instr Label)} {middle : α → List Value} {leaves : β → List Value}
    (h : Coded w fuel depth r m middle)
    (hc : ∀ a F G, m F = .ok a G → Implements w fuel depth code (middle a) (g a) leaves) :
    Coded w fuel depth (do return (← r) ++ code) (m >>= g) leaves := by
  obtain ⟨first, rfl, hf⟩ := h
  exact ⟨first ++ code, rfl, hf.bind hc⟩

namespace Expr

variable {ty : Ty} {e : Expr} {value : Expr} {op : BinaryOp} {found result : Ty}

def wanted (keep : Bool) (v : Value) : List Value := if keep then [v] else []

theorem dupIf_implements (keep : Bool) (v : Value) :
    Implements w fuel depth (dupIf keep) [v] (pure ()) fun _ => v :: wanted keep v := by
  cases keep with
  | false => exact .nil rfl
  | true => exact .dup v

/-- A value that is stored, and that stays on the stack if it is wanted. -/
theorem store_implements (place : Place) (keep : Bool) (v : Value) :
    Implements w fuel depth (dupIf keep ++ place.storeCode) [v] (do place.write v; return v)
      (wanted keep) := by
  have hdup : Implements w fuel depth (dupIf keep) [v] (pure ()) fun _ => v :: wanted keep v :=
    dupIf_implements keep v
  have hstore : Implements w fuel depth place.storeCode (v :: wanted keep v) (do place.write v; return v)
      (wanted keep) := by
    have hwrite : Implements w fuel depth place.storeCode [v] (place.write v) fun _ => [] := .store place v
    exact .map (f := fun _ => v) (hwrite.above (wanted keep v))
  exact hdup.silent hstore

theorem stepCode_implements (line : Nat) (place : Place) (s : Step) (first keep : Bool)
    (hn : ty.isNumeric = true) :
    Coded w fuel depth (stepCode ⟨some ty, line⟩ place s first keep)
      ((step ⟨some ty, line⟩ place s first).eval w fuel depth) (wanted keep) := by
  obtain ⟨one, hone, -⟩ := Ty.one?_numeric hn
  refine ⟨place.loadCode ++ dupIf (keep && !first) ++ [.push one, .binary s.op]
    ++ dupIf (keep && first) ++ place.storeCode, ?_, ?_⟩
  · simp only [stepCode, targetTy, bind, Except.bind, hone, pure, Except.pure]
  · simp only [eval, Option.bind_some, hone, Eval.one, pure_bind, List.append_assoc]
    refine (Implements.load place).bind fun old _ _ _ => ?_
    have hop : ∀ below, Implements w fuel depth [.push one, .binary s.op] (old :: below)
        (Eval.lift (Value.binary s.op old one)) fun new => new :: below := by
      intro below
      have hpush : Implements w fuel depth [.push one] (old :: below) (pure ()) fun _ =>
          one :: old :: below :=
        (Implements.push one).above (old :: below)
      exact hpush.silent ((Implements.binary s.op old one).above below)
    cases first with
    | true =>
      simp only [Bool.not_true, Bool.and_false, Bool.and_true, if_true]
      exact (hop []).bind fun new _ _ _ => store_implements place keep new
    | false =>
      simp only [Bool.not_false, Bool.and_false, Bool.and_true]
      refine (dupIf_implements keep old).silent ((hop _).bind fun new _ _ _ => ?_)
      exact .map (f := fun _ => old) ((Implements.store place new).above (wanted keep old))

theorem assignCode_implements (line : Nat) (place : Place) (keep : Bool)
    (hv : Coded w fuel depth value.valueCode (value.eval w fuel depth) fun v => [v]) :
    Coded w fuel depth (assignCode ⟨some ty, line⟩ place none value value.valueCode keep)
      ((assign ⟨some ty, line⟩ place none value).eval w fuel depth) (wanted keep) := by
  obtain ⟨code, hcode, hc⟩ := hv
  refine ⟨code ++ dupIf keep ++ place.storeCode, ?_, ?_⟩
  · rw [hcode]
    rfl
  · rw [eval, List.append_assoc]
    exact hc.bind fun v _ _ _ => store_implements place keep v

/-- The operator of a compound assignment, with the conversion after it. -/
theorem compoundCode_implements (w : World) (fuel depth : Nat) {target : Ty} (info : Info)
    (hr : op.resultTy? target found = some result) :
    ∃ code, compoundCode info op target found = .ok code ∧ ∀ old right : Value,
      Implements w fuel depth code [right, old]
        (do return op.stored (some target) (some found) (← Eval.lift (Value.binary op old right)))
          fun v => [v] := by
  refine ⟨if result = target then [.binary op] else [.binary op, .convert target], ?_, ?_⟩
  · simp only [compoundCode, BinaryOp.resultTy, hr, bind, Except.bind, pure, Except.pure]
  · intro old right
    by_cases he : result = target
    · have hs : ∀ v, op.stored (some target) (some found) v = v := by
        intro v
        simp [BinaryOp.stored, hr, he]
      simp only [hs, if_pos he]
      exact .map (f := id) (.binary op old right)
    · have hs : ∀ v, op.stored (some target) (some found) v = v.coerce target := by
        intro v
        simp [BinaryOp.stored, hr, he]
      simp only [hs, if_neg he]
      refine (Implements.binary op old right).bind fun v _ _ _ => ?_
      exact .value (r := fun _ => .ok (v.coerce target)) (fun _ => rfl) fun F k n s cs =>
        Config.execute_convert w F k n s cs target v

theorem assignCode_implements_compound (line : Nat) (place : Place) (keep : Bool)
    (ht : value.ty = some found) (hr : op.resultTy? ty found = some result)
    (hv : Coded w fuel depth value.valueCode (value.eval w fuel depth) fun v => [v]) :
    Coded w fuel depth (assignCode ⟨some ty, line⟩ place (some op) value value.valueCode keep)
      ((assign ⟨some ty, line⟩ place (some op) value).eval w fuel depth) (wanted keep) := by
  obtain ⟨code, hcode, hc⟩ := hv
  obtain ⟨compound, hcomp, hf⟩ := compoundCode_implements w fuel depth ⟨some ty, line⟩ hr
  refine ⟨place.loadCode ++ code ++ compound ++ dupIf keep ++ place.storeCode, ?_, ?_⟩
  · simp only [assignCode, targetTy, ht, hcode, hcomp, bind, Except.bind, pure, Except.pure]
  · simp only [eval, ht, List.append_assoc]
    refine (Implements.load place).bind fun old _ _ _ => ?_
    refine (hc.above [old]).bind fun right _ _ _ => ?_
    have hstored := (hf old right).bind fun v _ _ _ => store_implements place keep v
    simp only [bind_assoc, pure_bind] at hstored
    exact hstored

theorem typed_of_map {args : List Expr} (types : List Ty) (h : args.map Expr.ty = types.map some) :
    ∀ e ∈ args, ∃ ty, e.ty = some ty := by
  intro e he
  have hm : e.ty ∈ types.map some := h ▸ List.mem_map_of_mem he
  obtain ⟨ty, -, hty⟩ := List.mem_map.mp hm
  exact ⟨ty, hty.symm⟩

/-- Values are pushed in order, so that the last is on top. -/
theorem valuesCode_implements {args : List Expr} (ht : ∀ e ∈ args, ∃ ty, e.ty = some ty)
    (ha : ∀ e ∈ args, ∀ ty, e.ty = some ty →
      Coded w fuel depth e.valueCode (e.eval w fuel depth) fun v => [v]) :
    Coded w fuel depth (valuesCode args) (evalAll w fuel depth args) List.reverse := by
  induction args with
  | nil => exact ⟨[], rfl, .nil rfl⟩
  | cons e rest ih =>
    obtain ⟨ty, hty⟩ := ht e List.mem_cons_self
    obtain ⟨first, hfirst, hf⟩ := ha e List.mem_cons_self ty hty
    obtain ⟨others, hothers, ho⟩ := ih (fun e he => ht e (List.mem_cons_of_mem _ he))
      fun e he => ha e (List.mem_cons_of_mem _ he)
    refine ⟨first ++ others, ?_, ?_⟩
    · simp only [valuesCode, hfirst, hothers, bind, Except.bind, pure, Except.pure]
    · rw [evalAll]
      refine hf.bind fun v _ _ _ => Implements.map (f := fun others => v :: others) ?_
      simpa using ho.above [v]

theorem call_implements (hw : w.Serves Γ) {callee : Callee} {params : List Ty} {returns : Option Ty}
    (hc : Γ.calleeTy callee = some (params, returns)) (hr : returns.isSome = true) (args : List Value) :
    Implements w fuel depth [.call callee args.length] args.reverse
      (do Eval.one (← w.callToEnd fuel depth callee args)) fun v => [v] := by
  have hvalue : Implements w fuel depth ([.call callee args.length] ++ []) args.reverse
      (do Eval.one (← w.callToEnd fuel depth callee args)) fun v => [v] := by
    refine (Implements.call callee args).bind fun r F G h => ?_
    have hsome : r.isSome = true := (hw.call_value hc h).trans hr
    obtain ⟨v, rfl⟩ := Option.isSome_iff_exists.mp hsome
    exact .nil rfl
  exact hvalue

/-- The code for the value of a well-typed expression adds its value to the stack. -/
theorem WellTyped.valueCode_implements (hw : w.Serves Γ) (h : e.WellTyped Γ) :
    ∀ ty, e.ty = some ty → Coded w fuel depth e.valueCode (e.eval w fuel depth) fun v => [v] := by
  induction h with
  | literal v =>
    rintro ty ⟨⟩
    exact ⟨[.push v], rfl, (Implements.push v).silent (.nil rfl)⟩
  | @load _ x _ _ =>
    rintro ty ⟨⟩
    exact ⟨_, rfl, .var x⟩
  | @member _ base axis _ _ ht _ ih =>
    rintro ty ⟨⟩
    rw [valueCode, eval]
    exact (ih _ ht).andThen fun v _ _ _ => .component axis v
  | @unary _ op e _ _ _ ht _ ih =>
    rintro ty ⟨⟩
    rw [valueCode, eval]
    exact (ih _ ht).andThen fun v _ _ _ => .value (r := fun _ => v.unary op) (fun _ => rfl) fun F k n s cs =>
      Config.execute_unary w F k n s cs op v
  | @binary _ op l r _ _ _ _ _ hlt hrt _ ihl ihr =>
    rintro ty ⟨⟩
    obtain ⟨lcode, hl, hlc⟩ := ihl _ hlt
    obtain ⟨rcode, hr, hrc⟩ := ihr _ hrt
    refine ⟨lcode ++ rcode ++ [.binary op], ?_, ?_⟩
    · simp only [valueCode, hl, hr, bind, Except.bind, pure, Except.pure]
    · rw [eval, List.append_assoc]
      refine hlc.bind fun left _ _ _ => ?_
      exact (hrc.above [left]).bind fun right _ _ _ => .binary op left right
  | @assign line place _ _ _ _ ht ih =>
    rintro ty ⟨⟩
    exact assignCode_implements line place true (ih _ ht)
  | @compound line place _ _ _ _ _ _ _ ht hr _ ih =>
    rintro ty ⟨⟩
    exact assignCode_implements_compound line place true ht hr (ih _ ht)
  | @step line place s first _ _ hn =>
    rintro ty ⟨⟩
    exact stepCode_implements line place s first true hn
  | @cast _ target _ e _ ht _ ih =>
    rintro ty ⟨⟩
    rw [valueCode, eval]
    exact (ih _ ht).andThen fun v _ _ _ =>
      .value (r := fun _ => v.cast target) (fun _ => rfl) fun F k n s cs =>
      Config.execute_cast w F k n s cs target v
  | @convert _ target _ e _ ht _ ih =>
    rintro ty ⟨⟩
    rw [valueCode, eval]
    exact (ih _ ht).andThen fun v _ _ _ =>
      .value (r := fun _ => .ok (v.coerce target)) (fun _ => rfl) fun F k n s cs =>
        Config.execute_convert w F k n s cs target v
  | @call _ callee args params returns hc _ ht ih =>
    rintro ty ⟨⟩
    rw [valueCode, eval]
    refine (valuesCode_implements (typed_of_map params ht) ih).andThen fun values _ _ hv => ?_
    rw [← evalAll_length hv]
    exact call_implements hw hc rfl values
  | @vector _ parts _ ht ih =>
    rintro ty ⟨⟩
    have hlen : parts.length = 3 := by simpa using congrArg List.length ht
    have htyped := typed_of_map (List.replicate 3 .float) ht
    rw [valueCode, eval]
    refine (valuesCode_implements htyped ih).andThen fun values _ _ hv => ?_
    exact .value (r := fun _ => (numbers values).map ofNumbers) (fun _ => rfl) fun F k n s cs =>
      Config.execute_makeVector w F k n s cs values ((evalAll_length hv).trans hlen)
  | @rotation _ parts _ ht ih =>
    rintro ty ⟨⟩
    have hlen : parts.length = 4 := by simpa using congrArg List.length ht
    have htyped := typed_of_map (List.replicate 4 .float) ht
    rw [valueCode, eval]
    refine (valuesCode_implements htyped ih).andThen fun values _ _ hv => ?_
    exact .value (r := fun _ => (numbers values).map ofNumbers) (fun _ => rfl) fun F k n s cs =>
      Config.execute_makeRotation w F k n s cs values ((evalAll_length hv).trans hlen)
  | @list _ items _ ht ih =>
    rintro ty ⟨⟩
    have htyped : ∀ e ∈ items, ∃ ty, e.ty = some ty := fun e he => (ht e he).imp fun _ h => h.1
    rw [valueCode, eval]
    refine (valuesCode_implements htyped ih).andThen fun values _ _ hv => ?_
    rw [← evalAll_length hv]
    exact .value (r := fun _ => .ok (.list values)) (fun _ => rfl) fun F k n s cs =>
      Config.execute_makeList w F k n s cs values
  | label name => rintro ty ⟨⟩

theorem pop_implements {r : Except Diagnostic (List (Instr Label))} {m : Eval Value}
    (h : Coded w fuel depth r m fun v => [v]) :
    Coded w fuel depth (do return (← r) ++ [.pop]) m fun _ => [] := by
  have hpop : Coded w fuel depth (do return (← r) ++ [.pop]) (m >>= fun v => pure v) fun _ => [] :=
    h.andThen fun v _ _ _ => (Implements.pop v).silent (.nil rfl)
  rwa [bind_pure] at hpop

/-- The code for the effect of an expression does what the code for its value does, and leaves nothing. -/
theorem WellTyped.effectCode_implements (hw : w.Serves Γ) (h : e.WellTyped Γ) (ht : e.ty = some ty) :
    Coded w fuel depth e.effectCode (e.eval w fuel depth) fun _ => [] := by
  have hpop : Coded w fuel depth (do return (← e.valueCode) ++ [.pop]) (e.eval w fuel depth) fun _ => [] :=
    pop_implements (h.valueCode_implements hw ty ht)
  cases h with
  | @assign line place value _ hv _ hvt =>
    exact assignCode_implements line place false (hv.valueCode_implements hw _ hvt)
  | @compound line place _ value _ _ _ hv _ hvt hr _ =>
    exact assignCode_implements_compound line place false hvt hr (hv.valueCode_implements hw _ hvt)
  | @step line place s first _ _ hn => exact stepCode_implements line place s first false hn
  | @call line callee args params returns hc ha hargs =>
    obtain rfl : returns = some ty := ht
    have hcode : effectCode (.call ⟨some ty, line⟩ callee args) =
        do return (← valueCode (.call ⟨some ty, line⟩ callee args)) ++ [.pop] := by
      rw [effectCode, valueCode]
      cases valuesCode args <;> rfl
    rw [hcode]
    exact hpop
  | label name => cases ht
  | literal | load | member | unary | binary | cast | convert | vector | rotation | list => exact hpop

/-- The code for the effect of an expression that need not have a value. -/
theorem WellTyped.effectCode_implements_effect (hw : w.Serves Γ) (h : e.WellTyped Γ)
    (hl : ∀ info name, e ≠ .label info name) :
    Coded w fuel depth e.effectCode (e.effect w fuel depth) fun _ => [] := by
  have hvalue : ∀ ty, e.ty = some ty →
      Coded w fuel depth e.effectCode (do let _ ← e.eval w fuel depth) fun _ => [] := by
    intro ty ht
    obtain ⟨code, hcode, hc⟩ : Coded w fuel depth e.effectCode (e.eval w fuel depth) fun _ => [] :=
      h.effectCode_implements hw ht
    exact ⟨code, hcode, .map (f := fun _ => ()) hc⟩
  cases h with
  | @call line callee args params returns hc ha hargs =>
    obtain ⟨code, hcode, hvalues⟩ :
      Coded w fuel depth (valuesCode args) (evalAll w fuel depth args) List.reverse :=
      valuesCode_implements (typed_of_map params hargs) fun e he => (ha e he).valueCode_implements hw
    refine ⟨code ++ [.call callee args.length] ++ (if returns.isSome then [.pop] else []), ?_, ?_⟩
    · simp only [effectCode, hcode, bind, Except.bind, pure, Except.pure]
    · rw [effect, List.append_assoc]
      refine hvalues.bind fun values _ _ hv => ?_
      rw [← evalAll_length hv]
      refine (Implements.call callee values).bind fun r _ _ hr => ?_
      -- the result is there to be popped just when the type says so
      have hsome : r.isSome = returns.isSome := hw.call_value hc hr
      cases r with
      | none =>
        rw [← hsome]
        exact .nil rfl
      | some v =>
        rw [← hsome]
        exact .pop v
  | label name => exact absurd rfl (hl _ name)
  | literal | load | member | unary | binary | assign | compound | step | cast | convert | vector
  | rotation | list =>
    exact hvalue _ rfl

/-- The code of an expression, in any chunk and from any state, does what the evaluation of its tree does:
the code for its value adds just that value to the stack, and the code for its effect leaves the stack as
it was. -/
def CodeEvaluates (w : World) (e : Expr) : Prop :=
  ∃ valueCode effectCode, e.valueCode = .ok valueCode ∧ e.effectCode = .ok effectCode ∧
    ∀ (fuel : Nat) (k : Chunk) (resolve : Label → Except Label Nat) (start : Nat) (s : List Value)
      (cs : List Pending) (F : Frame),
      (k.Holds resolve start valueCode →
        Follows fuel ((F.config k start s cs).course w)
          (fun v G => (G.config k (start + valueCode.length) (v :: s) cs).course w)
          (e.eval w fuel cs.length F)) ∧
      (k.Holds resolve start effectCode →
        Follows fuel ((F.config k start s cs).course w)
          (fun _ G => (G.config k (start + effectCode.length) s cs).course w)
          (e.eval w fuel cs.length F))

/-- Every expression with a value that elaboration yields is turned into code that evaluates it. -/
theorem elaborated_codeEvaluates {env : Env} {w : World} (hr : env.registry.Built)
    (hw : w.registry = env.registry)
    (hf : w.program.functions.map ScriptFunction.signature = env.names.functions) {t : Term} {e : Expr}
    {ty : Ty} (he : env.elaborate t = .ok e) (ht : e.ty = some ty) : e.CodeEvaluates w := by
  have hwell : e.WellTyped env.layout := Env.elaborate_wellTyped hr.numbered he
  have hserves : w.Serves env.layout := ⟨congrArg Registry.functions hw.symm, hf.symm⟩
  have hvalue : ∀ fuel depth, Coded w fuel depth e.valueCode (e.eval w fuel depth) fun v => [v] :=
    fun _ _ => hwell.valueCode_implements hserves ty ht
  have heffect : ∀ fuel depth, Coded w fuel depth e.effectCode (e.eval w fuel depth) fun _ => [] :=
    fun _ _ => hwell.effectCode_implements hserves ht
  obtain ⟨valueCode, hvc, -⟩ := hvalue 0 0
  obtain ⟨effectCode, hec, -⟩ := heffect 0 0
  refine ⟨valueCode, effectCode, hvc, hec, ?_⟩
  intro fuel k resolve start s cs F
  constructor
  · intro hk
    obtain ⟨code, hcode, himp⟩ := hvalue fuel cs.length
    obtain rfl : valueCode = code := Except.ok.inj (hvc.symm.trans hcode)
    exact himp k resolve start s cs F rfl hk
  · intro hk
    obtain ⟨code, hcode, himp⟩ := heffect fuel cs.length
    obtain rfl : effectCode = code := Except.ok.inj (hec.symm.trans hcode)
    exact himp k resolve start s cs F rfl hk

end Expr

namespace Sample

def env : Env := ⟨registry, visibility, ⟨[⟨"total", .float⟩], [], [], 1, [[("n", 0)]], [⟨"n", .integer⟩]⟩⟩

def term : Term :=
  .assign ⟨some .add⟩ (.name "total" 1)
    (.binary .mul (.call "successor" [.name "n" 1] 1) (.step .increment false (.name "n" 1) 1) 1) 1

theorem term_elaborates : ∃ e, env.elaborate term = .ok e ∧ e.ty = some .float := by
  have h : (match env.elaborate term with
      | .ok e => decide (e.ty = some .float)
      | .error _ => false) = true := by decide +kernel
  cases he : env.elaborate term with
  | error d => simp [he] at h
  | ok e => exact ⟨e, rfl, by simpa [he] using h⟩

end Sample

theorem Expr.sample_codeEvaluates : ∃ e, Sample.env.elaborate Sample.term = .ok e ∧
    e.CodeEvaluates ⟨⟨[], [], []⟩, Sample.registry⟩ := by
  obtain ⟨e, he, ht⟩ := Sample.term_elaborates
  exact ⟨e, he, elaborated_codeEvaluates Sample.registry_built rfl rfl he ht⟩

end WorldScript
