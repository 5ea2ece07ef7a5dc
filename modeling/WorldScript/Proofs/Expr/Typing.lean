import WorldScript.Proofs.Capability.Numbering
import WorldScript.Proofs.Outcome
import WorldScript.Proofs.Value.Typing

/-! # Well-typed expressions

Elaboration only yields expressions in which every part has the type that its operation asks for.  What
is known about variables and callees is a `Layout`; it says nothing about names.
-/

namespace WorldScript

/-- What is known where code is written: the types of the slots, the functions that can be called, and
the number of states. -/
structure Layout where
  locals : List Ty
  globals : List Ty
  functions : List Signature
  hosts : Array HostFunction
  states : Nat

namespace Layout

def varTy (Γ : Layout) : Var → Option Ty
  | .loc slot => Γ.locals[slot]?
  | .glob slot => Γ.globals[slot]?

def placeTy (Γ : Layout) : Place → Option Ty
  | .var x => Γ.varTy x
  | .member x axis => ((Γ.varTy x).filter fun ty => axis.appliesTo ty).map fun _ => .float

def calleeTy (Γ : Layout) : Callee → Option (List Ty × Option Ty)
  | .host id => Γ.hosts[id]?.map fun f => (f.params, f.returns)
  | .script index => Γ.functions[index]?.map fun s => (s.params.map Param.ty, s.returns)

end Layout

def Layout.withLocals (Γ : Layout) (locals : List Ty) : Layout := { Γ with locals }

def Names.layout (n : Names) (hosts : Array HostFunction) : Layout :=
  ⟨n.locals.map Param.ty, n.globals.map Param.ty, n.functions, hosts, n.states.length⟩

def Env.layout (env : Env) : Layout := env.names.layout env.registry.functions

inductive Expr.WellTyped (Γ : Layout) : Expr → Prop
  | literal {line : Nat} (v : Value) : WellTyped Γ (.literal ⟨some v.ty, line⟩ v)
  | load {line : Nat} {x : Var} {ty : Ty} (hx : Γ.varTy x = some ty) :
      WellTyped Γ (.load ⟨some ty, line⟩ x)
  | member {line : Nat} {base : Expr} {axis : Axis} {ty : Ty} (hb : WellTyped Γ base)
      (ht : base.ty = some ty) (ha : axis.appliesTo ty = true) :
      WellTyped Γ (.member ⟨some .float, line⟩ base axis)
  | unary {line : Nat} {op : UnaryOp} {e : Expr} {ty result : Ty} (he : WellTyped Γ e)
      (ht : e.ty = some ty) (hr : op.resultTy? ty = some result) :
      WellTyped Γ (.unary ⟨some result, line⟩ op e)
  | binary {line : Nat} {op : BinaryOp} {l r : Expr} {lt rt result : Ty} (hl : WellTyped Γ l)
      (hr : WellTyped Γ r) (hlt : l.ty = some lt) (hrt : r.ty = some rt)
      (hres : op.resultTy? lt rt = some result) : WellTyped Γ (.binary ⟨some result, line⟩ op l r)
  | assign {line : Nat} {place : Place} {value : Expr} {ty : Ty} (hv : WellTyped Γ value)
      (hp : Γ.placeTy place = some ty) (ht : value.ty = some ty) :
      WellTyped Γ (.assign ⟨some ty, line⟩ place none value)
  | compound {line : Nat} {place : Place} {op : BinaryOp} {value : Expr} {ty found result : Ty}
      (hv : WellTyped Γ value) (hp : Γ.placeTy place = some ty) (ht : value.ty = some found)
      (hr : op.resultTy? ty found = some result) (ha : ty.accepts result = true) :
      WellTyped Γ (.assign ⟨some ty, line⟩ place (some op) value)
  | step {line : Nat} {place : Place} {s : Step} {first : Bool} {ty : Ty}
      (hp : Γ.placeTy place = some ty) (hn : ty.isNumeric = true) :
      WellTyped Γ (.step ⟨some ty, line⟩ place s first)
  | cast {line : Nat} {target source : Ty} {e : Expr} (he : WellTyped Γ e) (ht : e.ty = some source)
      (hc : target.castableFrom source = true) : WellTyped Γ (.cast ⟨some target, line⟩ target e)
  | convert {line : Nat} {target source : Ty} {e : Expr} (he : WellTyped Γ e)
      (ht : e.ty = some source) (ha : target.accepts source = true) :
      WellTyped Γ (.convert ⟨some target, line⟩ target e)
  | call {line : Nat} {callee : Callee} {args : List Expr} {params : List Ty} {returns : Option Ty}
      (hc : Γ.calleeTy callee = some (params, returns)) (ha : ∀ e ∈ args, WellTyped Γ e)
      (ht : args.map Expr.ty = params.map some) : WellTyped Γ (.call ⟨returns, line⟩ callee args)
  | vector {line : Nat} {parts : List Expr} (hp : ∀ e ∈ parts, WellTyped Γ e)
      (ht : parts.map Expr.ty = List.replicate 3 (some .float)) :
      WellTyped Γ (.vector ⟨some .vector, line⟩ parts)
  | rotation {line : Nat} {parts : List Expr} (hp : ∀ e ∈ parts, WellTyped Γ e)
      (ht : parts.map Expr.ty = List.replicate 4 (some .float)) :
      WellTyped Γ (.rotation ⟨some .rotation, line⟩ parts)
  | list {line : Nat} {items : List Expr} (hi : ∀ e ∈ items, WellTyped Γ e)
      (ht : ∀ e ∈ items, ∃ ty, e.ty = some ty ∧ ty ≠ .list) :
      WellTyped Γ (.list ⟨some .list, line⟩ items)
  | label {line : Nat} (name : String) : WellTyped Γ (.label ⟨none, line⟩ name)

namespace Expr

variable {e operand : Expr} {ty : Ty} {Γ : Layout} {line : Nat}

theorem valueTy_ok (h : e.valueTy = .ok ty) : e.ty = some ty := by
  unfold valueTy at h
  split at h
  · rename_i found hf
    rw [hf, Except.ok.inj h]
  · split at h <;> simp at h

theorem convertedTo_ty (e : Expr) (target : Ty) : (e.convertedTo target).ty = some target := by
  unfold convertedTo
  split
  · assumption
  · rfl

theorem WellTyped.convertedTo {source target : Ty} (he : e.WellTyped Γ) (ht : e.ty = some source)
    (ha : target.accepts source = true) : (e.convertedTo target).WellTyped Γ := by
  unfold Expr.convertedTo
  split
  · exact he
  · exact .convert he ht ha

/-- A place holds values of the type of the expression that names it. -/
theorem WellTyped.place {place : Place} (he : e.WellTyped Γ) (hp : e.place? = some place)
    (ht : e.ty = some ty) : Γ.placeTy place = some ty := by
  cases he with
  | load hx =>
    cases hp
    exact hx.trans ht
  | @member line base axis baseTy hb hbt ha =>
    cases hb <;> simp only [place?, Option.some.injEq, reduceCtorEq] at hp
    rename_i x xTy hx
    subst hp
    have hxt : xTy = baseTy := Option.some.inj hbt
    have hf : ty = .float := (Option.some.inj ht).symm
    simp [Layout.placeTy, hx, hxt, ha, hf]
  | literal | unary | binary | assign | compound | step | cast | convert | call | vector | rotation
  | list | label => simp [place?] at hp

theorem ofUnary_wellTyped {op : UnaryOp} (ho : operand.WellTyped Γ) (h : ofUnary op operand line = .ok e) :
    e.WellTyped Γ := by
  simp only [ofUnary, bind_ok] at h
  obtain ⟨ty, hty, h⟩ := h
  split at h
  · cases h
    exact .literal _
  · split at h
    · rename_i result hr
      cases h
      exact .unary ho (valueTy_ok hty) hr
    · simp at h

theorem resultTy_ok {op : BinaryOp} {l r : Ty} (h : op.resultTy l r line = .ok ty) :
    op.resultTy? l r = some ty := by
  unfold BinaryOp.resultTy at h
  split at h
  · rename_i found hf
    rw [hf, Except.ok.inj h]
  · simp at h

theorem ofBinary_wellTyped {op : BinaryOp} {left right : Expr} (hl : left.WellTyped Γ)
    (hr : right.WellTyped Γ) (h : ofBinary op left right line = .ok e) : e.WellTyped Γ := by
  simp only [ofBinary, bind_ok, pure_ok] at h
  obtain ⟨l, hlt, r, hrt, ty, hty, rfl⟩ := h
  exact .binary hl hr (valueTy_ok hlt) (valueTy_ok hrt) (resultTy_ok hty)

theorem ofAssign_wellTyped {assignment : Assignment} {target value : Expr} (ht : target.WellTyped Γ)
    (hv : value.WellTyped Γ) (h : ofAssign assignment target value line = .ok e) : e.WellTyped Γ := by
  unfold ofAssign at h
  split at h
  · simp at h
  · rename_i place hplace
    simp only [bind_ok] at h
    obtain ⟨targetTy, htt, found, hf, h⟩ := h
    have hp := ht.place hplace (valueTy_ok htt)
    obtain ⟨op⟩ := assignment
    cases op with
    | none =>
      obtain ⟨stored, hs, h⟩ := bind_ok.mp h
      cases hs
      simp only [Option.isNone_none, if_true] at h
      split at h
      · rename_i ha
        cases h
        exact .assign (hv.convertedTo (valueTy_ok hf) ha) hp (convertedTo_ty _ _)
      · simp at h
    | some op =>
      obtain ⟨stored, hs, h⟩ := bind_ok.mp h
      simp only [Option.isNone_some, Bool.false_eq_true, if_false] at h
      split at h
      · rename_i ha
        cases h
        exact .compound hv hp (valueTy_ok hf) (resultTy_ok hs) ha
      · simp at h

theorem ofStep_wellTyped {s : Step} {first : Bool} (ho : operand.WellTyped Γ)
    (h : ofStep s first operand line = .ok e) : e.WellTyped Γ := by
  unfold ofStep at h
  split at h
  · simp at h
  · rename_i place hplace
    simp only [bind_ok] at h
    obtain ⟨ty, hty, h⟩ := h
    split at h
    · rename_i hn
      cases h
      exact .step (ho.place hplace (valueTy_ok hty)) hn
    · simp at h

theorem ofMember_wellTyped {base : Expr} {name : String} (hb : base.WellTyped Γ)
    (h : ofMember base name line = .ok e) : e.WellTyped Γ := by
  simp only [ofMember, bind_ok] at h
  obtain ⟨ty, hty, h⟩ := h
  split at h
  · rename_i axis ha
    cases h
    exact .member hb (valueTy_ok hty) (Option.filter_eq_some_iff.mp ha).2
  · simp at h

theorem ofCast_wellTyped {target : Ty} (ho : operand.WellTyped Γ) (h : ofCast target operand line = .ok e) :
    e.WellTyped Γ := by
  simp only [ofCast, bind_ok] at h
  obtain ⟨source, hs, h⟩ := h
  split at h
  · rename_i hc
    cases h
    exact .cast ho (valueTy_ok hs) hc
  · simp at h

theorem ofPart_wellTyped {part : Expr} (hp : part.WellTyped Γ) (h : ofPart part = .ok e) :
    e.WellTyped Γ ∧ e.ty = some .float := by
  simp only [ofPart, bind_ok] at h
  obtain ⟨ty, hty, h⟩ := h
  split at h
  · rename_i ha
    cases h
    exact ⟨hp.convertedTo (valueTy_ok hty) ha, convertedTo_ty _ _⟩
  · simp at h

theorem ofParts_wellTyped {parts : List Expr} (hp : ∀ p ∈ parts, p.WellTyped Γ ∧ p.ty = some .float)
    (h : ofParts parts line = .ok e) : e.WellTyped Γ := by
  have hw : ∀ p ∈ parts, p.WellTyped Γ := fun p hmem => (hp p hmem).1
  have ht : parts.map Expr.ty = List.replicate parts.length (some .float) :=
    List.eq_replicate_iff.mpr ⟨by simp, by
      intro ty hty
      obtain ⟨p, hmem, rfl⟩ := List.mem_map.mp hty
      exact (hp p hmem).2⟩
  unfold ofParts at h
  split at h
  · rename_i hl
    cases h
    exact .vector hw (hl ▸ ht)
  · rename_i hl
    cases h
    exact .rotation hw (hl ▸ ht)
  · simp at h

theorem checkItems_ok {items : List Expr} (h : checkItems items = .ok ()) :
    ∀ e ∈ items, ∃ ty, e.ty = some ty ∧ ty ≠ .list := by
  induction items with
  | nil => simp
  | cons item rest ih =>
    simp only [checkItems, bind_ok] at h
    obtain ⟨ty, hty, h⟩ := h
    split at h
    · simp at h
    · rename_i hne
      intro e he
      rcases List.mem_cons.mp he with rfl | he
      · exact ⟨ty, valueTy_ok hty, hne⟩
      · exact ih h e he

theorem ofItems_wellTyped {items : List Expr} (hi : ∀ i ∈ items, i.WellTyped Γ)
    (h : ofItems items line = .ok e) : e.WellTyped Γ := by
  simp only [ofItems, bind_ok, pure_ok] at h
  obtain ⟨_, hc, rfl⟩ := h
  exact .list hi (checkItems_ok hc)

/-- Converted arguments have the types of the parameters. -/
theorem convertedArgs_wellTyped {name : String} {position : Nat} {args : List (Expr × Ty)}
    {params : List Param} {es : List Expr} (hlen : params.length = args.length)
    (ha : ∀ a ∈ args, a.1.WellTyped Γ ∧ a.1.ty = some a.2)
    (h : convertedArgs name line position args params = .ok es) :
    (∀ e ∈ es, e.WellTyped Γ) ∧ es.map Expr.ty = (params.map Param.ty).map some := by
  induction args generalizing position params es with
  | nil =>
    cases params with
    | nil =>
      cases h
      exact ⟨by simp, rfl⟩
    | cons param params => simp at hlen
  | cons arg args ih =>
    cases params with
    | nil => simp at hlen
    | cons param params =>
      simp only [convertedArgs] at h
      split at h
      · rename_i hacc
        simp only [bind_ok, pure_ok] at h
        obtain ⟨rest, hrest, rfl⟩ := h
        have harg := ha arg List.mem_cons_self
        have hothers := ih (by simpa using hlen) (fun a hmem => ha a (List.mem_cons_of_mem _ hmem)) hrest
        refine ⟨?_, ?_⟩
        · intro e he
          rcases List.mem_cons.mp he with rfl | he
          · exact harg.1.convertedTo harg.2 hacc
          · exact hothers.1 e he
        · simp [convertedTo_ty, hothers.2]
      · simp at h

end Expr

theorem Names.lookup?_varTy {n : Names} {hosts : Array HostFunction} {name : String} {x : Var} {ty : Ty}
    (h : n.lookup? name = some (x, ty)) : (n.layout hosts).varTy x = some ty := by
  unfold Names.lookup? at h
  split at h
  · rename_i slot _
    obtain ⟨l, hl, hx⟩ := Option.map_eq_some_iff.mp h
    cases hx
    simp [layout, Layout.varTy, hl]
  · unfold Names.global? at h
    split at h
    · simp at h
    · split at h
      · obtain ⟨g, hg, hx⟩ := Option.map_eq_some_iff.mp h
        cases hx
        simp [layout, Layout.varTy, hg]
      · simp at h

namespace Env

variable {env : Env} {name : String} {line : Nat} {e : Expr} {types : List Ty} {args : List Expr} {Γ : Layout}

theorem nameExpr_wellTyped (h : env.nameExpr name line = .ok e) : e.WellTyped env.layout := by
  unfold nameExpr at h
  split at h
  · rename_i x ty hx
    cases h
    exact .load (Names.lookup?_varTy hx)
  · split at h
    · cases h
      exact .literal _
    · split at h <;> simp at h

theorem reaches_of_params {f : HostFunction} (h : f.params = types) : reaches types f = true := by
  subst h
  simp only [reaches, decide_true, Bool.true_and, List.all_eq_true]
  rintro ⟨param, ty⟩ hmem
  have := List.of_mem_zip hmem
  obtain ⟨i, hi, hz⟩ := List.mem_iff_getElem.mp hmem
  simp only [List.getElem_zip, Prod.mk.injEq] at hz
  rw [← hz.1, ← hz.2]
  exact Ty.accepts_self _

/-- The function that a call means may be seen, and the arguments can be converted for it. -/
theorem overload_reaches {f : HostFunction} (h : env.overload name types line = .ok f) :
    f ∈ env.registry.overloads name env.visibility ∧ reaches types f = true := by
  unfold overload at h
  simp only at h
  split at h
  · simp at h
  · split at h
    · rename_i exact hf
      cases h
      exact ⟨List.mem_of_find?_eq_some hf,
        reaches_of_params (by simpa using List.find?_some hf)⟩
    · split at h
      · rename_i only hv
        cases h
        have hmem : f ∈ (env.registry.overloads name env.visibility).filter (reaches types) := by
          rw [hv]
          exact List.mem_singleton_self f
        exact List.mem_filter.mp hmem
      · simp at h
      · simp at h

theorem mapM_valueTy (h : args.mapM Expr.valueTy = .ok types) : args.map Expr.ty = types.map some := by
  induction args generalizing types with
  | nil =>
    cases h
    rfl
  | cons arg rest ih =>
    simp only [List.mapM_cons, bind_ok, pure_ok] at h
    obtain ⟨ty, hty, others, ho, rfl⟩ := h
    simp [Expr.valueTy_ok hty, ih ho]

/-- Arguments beside the types of their values. -/
theorem zip_types (ha : ∀ e ∈ args, e.WellTyped Γ) (ht : args.map Expr.ty = types.map some) :
    ∀ a ∈ args.zip types, a.1.WellTyped Γ ∧ a.1.ty = some a.2 := by
  rintro ⟨arg, ty⟩ hmem
  refine ⟨ha arg (List.of_mem_zip hmem).1, ?_⟩
  obtain ⟨i, hi, hz⟩ := List.mem_iff_getElem.mp hmem
  simp only [List.getElem_zip, Prod.mk.injEq] at hz
  have hi' : i < args.length ∧ i < types.length := by simpa [Nat.lt_min] using hi
  have he := congrArg (·[i]?) ht
  simp only [List.getElem?_map, List.getElem?_eq_getElem hi'.1, List.getElem?_eq_getElem hi'.2,
    Option.map_some, Option.some.injEq, hz.1, hz.2] at he
  exact he

theorem scriptCall_wellTyped {signature : Signature} {index : Nat} {args : List (Expr × Ty)}
    (hf : Γ.functions[index]? = some signature) (ha : ∀ a ∈ args, a.1.WellTyped Γ ∧ a.1.ty = some a.2)
    (h : scriptCall signature index args line = .ok e) : e.WellTyped Γ := by
  unfold scriptCall at h
  split at h
  · rename_i hlen
    simp only [bind_ok, pure_ok] at h
    obtain ⟨converted, hc, rfl⟩ := h
    have hargs := Expr.convertedArgs_wellTyped hlen ha hc
    exact .call (by simp [Layout.calleeTy, hf]) hargs.1 hargs.2
  · simp at h

/-- Arguments that a host function can be called with have the types of its parameters once they are
converted. -/
theorem converted_wellTyped {args : List (Expr × Ty)} {params : List Ty}
    (hlen : params.length = args.length)
    (hacc : (params.zip (args.map Prod.snd)).all (fun p => p.1.accepts p.2) = true)
    (ha : ∀ a ∈ args, a.1.WellTyped Γ ∧ a.1.ty = some a.2) :
    (∀ e ∈ (args.zip params).map (fun p => p.1.1.convertedTo p.2), e.WellTyped Γ) ∧
      ((args.zip params).map (fun p => p.1.1.convertedTo p.2)).map Expr.ty = params.map some := by
  induction args generalizing params with
  | nil =>
    cases params with
    | nil => simp
    | cons param params => simp at hlen
  | cons arg args ih =>
    cases params with
    | nil => simp at hlen
    | cons param params =>
      simp only [List.map_cons, List.zip_cons_cons, List.all_cons, Bool.and_eq_true] at hacc
      have harg := ha arg List.mem_cons_self
      have hothers := ih (by simpa using hlen) hacc.2 fun a hmem => ha a (List.mem_cons_of_mem _ hmem)
      refine ⟨?_, ?_⟩
      · intro e he
        rcases List.mem_cons.mp he with rfl | he
        · exact harg.1.convertedTo harg.2 hacc.1
        · exact hothers.1 e he
      · simp only [List.zip_cons_cons, List.map_cons, Expr.convertedTo_ty, hothers.2]

theorem hostCall_wellTyped (hn : Numbered env.registry.functions) {args : List (Expr × Ty)}
    (ha : ∀ a ∈ args, a.1.WellTyped env.layout ∧ a.1.ty = some a.2)
    (h : env.hostCall name args line = .ok e) : e.WellTyped env.layout := by
  simp only [hostCall, bind_ok, pure_ok] at h
  obtain ⟨f, hf, rfl⟩ := h
  obtain ⟨hmem, hreach⟩ := overload_reaches hf
  simp only [reaches, Bool.and_eq_true, decide_eq_true_eq, List.length_map] at hreach
  have hargs := converted_wellTyped hreach.1 hreach.2 ha
  have hid := Registry.overloads_numbered hn hmem
  exact .call (by simp [Layout.calleeTy, Env.layout, Names.layout, hid]) hargs.1 hargs.2

theorem callExpr_wellTyped (hn : Numbered env.registry.functions) (ha : ∀ a ∈ args, a.WellTyped env.layout)
    (h : env.callExpr name args line = .ok e) : e.WellTyped env.layout := by
  simp only [callExpr, bind_ok] at h
  obtain ⟨types, ht, h⟩ := h
  have hargs := zip_types ha (mapM_valueTy ht)
  split at h
  · split at h
    · rename_i signature hs
      exact scriptCall_wellTyped hs hargs h
    · simp at h
  · exact hostCall_wellTyped hn hargs h

mutual

/-- What elaboration yields is well typed. -/
theorem elaborate_wellTyped {env : Env} (hn : Numbered env.registry.functions) {t : Term} {e : Expr}
    (h : env.elaborate t = .ok e) : e.WellTyped env.layout := by
  cases t with
  | literal value line =>
    cases h
    exact .literal _
  | name name line => exact nameExpr_wellTyped h
  | call name args line =>
    simp only [elaborate, bind_ok] at h
    obtain ⟨es, hes, h⟩ := h
    exact callExpr_wellTyped hn (elaborateAll_wellTyped hn hes) h
  | list items line =>
    simp only [elaborate, bind_ok] at h
    obtain ⟨es, hes, h⟩ := h
    exact Expr.ofItems_wellTyped (elaborateAll_wellTyped hn hes) h
  | angle parts line =>
    simp only [elaborate, bind_ok] at h
    obtain ⟨es, hes, h⟩ := h
    exact Expr.ofParts_wellTyped (elaborateParts_wellTyped hn hes) h
  | cast target operand line =>
    simp only [elaborate, bind_ok] at h
    obtain ⟨o, ho, h⟩ := h
    exact Expr.ofCast_wellTyped (elaborate_wellTyped hn ho) h
  | label name line =>
    cases h
    exact .label name
  | unary op operand line =>
    simp only [elaborate, bind_ok] at h
    obtain ⟨o, ho, h⟩ := h
    exact Expr.ofUnary_wellTyped (elaborate_wellTyped hn ho) h
  | step s first operand line =>
    simp only [elaborate, bind_ok] at h
    obtain ⟨o, ho, h⟩ := h
    exact Expr.ofStep_wellTyped (elaborate_wellTyped hn ho) h
  | member base name line =>
    simp only [elaborate, bind_ok] at h
    obtain ⟨b, hb, h⟩ := h
    exact Expr.ofMember_wellTyped (elaborate_wellTyped hn hb) h
  | binary op left right line =>
    simp only [elaborate, bind_ok] at h
    obtain ⟨l, hl, r, hr, h⟩ := h
    exact Expr.ofBinary_wellTyped (elaborate_wellTyped hn hl) (elaborate_wellTyped hn hr) h
  | assign assignment target value line =>
    simp only [elaborate, bind_ok] at h
    obtain ⟨t, ht, v, hv, h⟩ := h
    exact Expr.ofAssign_wellTyped (elaborate_wellTyped hn ht) (elaborate_wellTyped hn hv) h
  | broken problem => simp [elaborate] at h
  | brokenAfter before problem =>
    simp only [elaborate, bind_ok] at h
    obtain ⟨b, _, h⟩ := h
    simp at h

theorem elaborateAll_wellTyped {env : Env} (hn : Numbered env.registry.functions) {ts : List Term}
    {es : List Expr} (h : env.elaborateAll ts = .ok es) : ∀ e ∈ es, e.WellTyped env.layout := by
  cases ts with
  | nil =>
    cases h
    simp
  | cons t rest =>
    simp only [elaborateAll, bind_ok, pure_ok] at h
    obtain ⟨first, hf, others, ho, rfl⟩ := h
    intro e he
    rcases List.mem_cons.mp he with rfl | he
    · exact elaborate_wellTyped hn hf
    · exact elaborateAll_wellTyped hn ho e he

theorem elaborateParts_wellTyped {env : Env} (hn : Numbered env.registry.functions) {ts : List Term}
    {es : List Expr} (h : env.elaborateParts ts = .ok es) :
    ∀ e ∈ es, e.WellTyped env.layout ∧ e.ty = some .float := by
  cases ts with
  | nil =>
    cases h
    simp
  | cons t rest =>
    simp only [elaborateParts, bind_ok, pure_ok] at h
    obtain ⟨first, hf, part, hp, others, ho, rfl⟩ := h
    intro e he
    rcases List.mem_cons.mp he with rfl | he
    · exact Expr.ofPart_wellTyped (elaborate_wellTyped hn hf) hp
    · exact elaborateParts_wellTyped hn ho e he

end

end Env

end WorldScript
