import Mathlib.Data.List.Forall2
import WorldScript.Proofs.Expr.Typing
import WorldScript.Proofs.Term.Spelling

/-! # Terms that resolve

Which expression a term stands for, rule by rule: what a name means, the types that an operation takes,
and where a conversion stands in for the value of another type.  Elaboration finds an expression just
where a rule gives one.
-/

namespace WorldScript

namespace Env

/-- The host function that arguments of some types select: the first with parameters of these types, else
the only one that they can be converted for. -/
def Selects (candidates : List HostFunction) (types : List Ty) (f : HostFunction) : Prop :=
  candidates.find? (fun g => g.params = types) = some f ∨
    (candidates.find? (fun g => g.params = types) = none ∧ candidates.filter (reaches types) = [f])

inductive Resolves (env : Env) : Term → Expr → Prop
  | literal {v : Value} {line : Nat} : Resolves env (.literal v line) (.ofValue v line)
  | load {name : String} {line : Nat} {x : Var} {ty : Ty} (h : env.names.lookup? name = some (x, ty)) :
      Resolves env (.name name line) (.load ⟨some ty, line⟩ x)
  | constant {name : String} {line : Nat} {c : HostConstant} (hn : env.names.lookup? name = none)
      (hc : env.registry.constant? name env.visibility = some c) :
      Resolves env (.name name line) (.ofValue (c.value.coerce c.ty) line)
  | label {name : String} {line : Nat} : Resolves env (.label name line) (.label ⟨none, line⟩ name)
  | negative {t : Term} {line : Nat} {e : Expr} {ty : Ty} {v : Value} (h : Resolves env t e)
    (ht : e.ty = some ty)
      (hn : e.negated? = some v) : Resolves env (.unary .negate t line) (.ofValue v line)
  | unary {op : UnaryOp} {t : Term} {line : Nat} {e : Expr} {ty result : Ty} (h : Resolves env t e)
      (ht : e.ty = some ty) (hn : op = .negate → e.negated? = none) (hr : op.resultTy? ty = some result) :
      Resolves env (.unary op t line) (.unary ⟨some result, line⟩ op e)
  | binary {op : BinaryOp} {t u : Term} {line : Nat} {l r : Expr} {lt rt result : Ty} (hl : Resolves env t l)
      (hr : Resolves env u r) (hlt : l.ty = some lt) (hrt : r.ty = some rt)
      (hres : op.resultTy? lt rt = some result) :
      Resolves env (.binary op t u line) (.binary ⟨some result, line⟩ op l r)
  | assign {t u : Term} {line : Nat} {target value : Expr} {place : Place} {ty found : Ty}
      (ht : Resolves env t target) (hv : Resolves env u value) (hp : target.place? = some place)
      (hty : target.ty = some ty) (hf : value.ty = some found) (ha : ty.accepts found = true) :
      Resolves env (.assign ⟨none⟩ t u line) (.assign ⟨some ty, line⟩ place none (value.convertedTo ty))
  | compound {op : BinaryOp} {t u : Term} {line : Nat} {target value : Expr} {place : Place}
    {ty found stored : Ty}
      (ht : Resolves env t target) (hv : Resolves env u value) (hp : target.place? = some place)
      (hty : target.ty = some ty) (hf : value.ty = some found) (hs : op.resultTy? ty found = some stored)
      (ha : ty.accepts stored = true) :
      Resolves env (.assign ⟨some op⟩ t u line) (.assign ⟨some ty, line⟩ place (some op) value)
  | step {s : Step} {first : Bool} {t : Term} {line : Nat} {e : Expr} {place : Place} {ty : Ty}
      (h : Resolves env t e) (hp : e.place? = some place) (ht : e.ty = some ty) (hn : ty.isNumeric = true) :
      Resolves env (.step s first t line) (.step ⟨some ty, line⟩ place s first)
  | member {name : String} {t : Term} {line : Nat} {e : Expr} {ty : Ty} {axis : Axis} (h : Resolves env t e)
      (ht : e.ty = some ty) (hn : Axis.ofName? name = some axis) (ha : axis.appliesTo ty = true) :
      Resolves env (.member t name line) (.member ⟨some .float, line⟩ e axis)
  | cast {target : Ty} {t : Term} {line : Nat} {e : Expr} {ty : Ty} (h : Resolves env t e)
    (ht : e.ty = some ty)
      (hc : target.castableFrom ty = true) :
        Resolves env (.cast target t line) (.cast ⟨some target, line⟩ target e)
  | list {ts : List Term} {line : Nat} {es : List Expr} (h : List.Forall₂ (Resolves env) ts es)
      (ht : ∀ e ∈ es, ∃ ty, e.ty = some ty ∧ ty ≠ .list) :
      Resolves env (.list ts line) (.list ⟨some .list, line⟩ es)
  | vector {ts : List Term} {line : Nat} {es : List Expr} (h : List.Forall₂ (Resolves env) ts es)
      (ht : ∀ e ∈ es, ∃ ty, e.ty = some ty ∧ Ty.float.accepts ty = true) (hl : es.length = 3) :
      Resolves env (.angle ts line) (.vector ⟨some .vector, line⟩ (es.map fun e => e.convertedTo .float))
  | rotation {ts : List Term} {line : Nat} {es : List Expr} (h : List.Forall₂ (Resolves env) ts es)
      (ht : ∀ e ∈ es, ∃ ty, e.ty = some ty ∧ Ty.float.accepts ty = true) (hl : es.length = 4) :
      Resolves env (.angle ts line) (.rotation ⟨some .rotation, line⟩ (es.map fun e => e.convertedTo .float))
  | scriptCall {name : String} {ts : List Term} {line index : Nat} {es : List Expr} {types : List Ty}
      {signature : Signature} (h : List.Forall₂ (Resolves env) ts es) (ht : es.map Expr.ty = types.map some)
      (hi : env.names.functionIndex? name = some index) (hs : env.names.functions[index]? = some signature)
      (ha : List.Forall₂ (fun p ty => Ty.accepts p ty = true) (signature.params.map Param.ty) types) :
      Resolves env (.call name ts line) (.call ⟨signature.returns, line⟩ (.script index)
        (List.zipWith Expr.convertedTo es (signature.params.map Param.ty)))
  | hostCall {name : String} {ts : List Term} {line : Nat} {es : List Expr} {types : List Ty}
    {f : HostFunction}
      (h : List.Forall₂ (Resolves env) ts es) (ht : es.map Expr.ty = types.map some)
      (hi : env.names.functionIndex? name = none)
      (hf : Selects (env.registry.overloads name env.visibility) types f) :
      Resolves env (.call name ts line) (.call ⟨f.returns, line⟩ (.host f.id)
        (List.zipWith Expr.convertedTo es f.params))

end Env

namespace Expr

variable {e operand : Expr} {op : BinaryOp} {line : Nat} {ty : Ty} {target value : Expr} {name : String}
  {items es : List Expr} {types : List Ty}

theorem valueTy_ok_iff : e.valueTy = .ok ty ↔ e.ty = some ty := by
  refine ⟨valueTy_ok, fun h => ?_⟩
  simp [valueTy, h]

theorem resultTy_ok_iff {l r : Ty} : op.resultTy l r line = .ok ty ↔ op.resultTy? l r = some ty := by
  refine ⟨resultTy_ok, fun h => ?_⟩
  simp [BinaryOp.resultTy, h]

theorem ofUnary_ok_iff {op : UnaryOp} :
    ofUnary op operand line = .ok e ↔
    ∃ ty, operand.ty = some ty ∧ ((∃ v, op = .negate ∧ operand.negated? = some v ∧ .ofValue v line = e) ∨
      ∃ result, (op = .negate → operand.negated? = none) ∧ op.resultTy? ty = some result ∧
        .unary ⟨some result, line⟩ op operand = e) := by
  simp only [ofUnary, bind_ok, valueTy_ok_iff]
  refine exists_congr fun ty => and_congr_right fun _ => ?_
  by_cases hop : op = .negate
  · subst hop
    cases hn : operand.negated? with
    | some v => simp [pure_ok]
    | none => cases hr : UnaryOp.negate.resultTy? ty <;> simp [pure_ok]
  · cases hr : op.resultTy? ty <;> simp [hop, pure_ok]

theorem ofBinary_ok_iff {left right : Expr} :
    ofBinary op left right line = .ok e ↔
    ∃ l, left.ty = some l ∧ ∃ r, right.ty = some r ∧ ∃ result, op.resultTy? l r = some result ∧
      .binary ⟨some result, line⟩ op left right = e := by
  simp only [ofBinary, bind_ok, pure_ok, valueTy_ok_iff, resultTy_ok_iff]

theorem ofAssign_ok_iff :
    ofAssign ⟨none⟩ target value line = .ok e ↔
    ∃ place, target.place? = some place ∧ ∃ ty, target.ty = some ty ∧ ∃ found, value.ty = some found ∧
      ty.accepts found = true ∧ .assign ⟨some ty, line⟩ place none (value.convertedTo ty) = e := by
  unfold ofAssign
  cases hp : target.place? with
  | none => simp
  | some place =>
    simp only [bind_ok, valueTy_ok_iff, Option.some.injEq, exists_eq_left']
    refine exists_congr fun ty => and_congr_right fun _ => exists_congr fun found =>
      and_congr_right fun _ => ?_
    by_cases ha : ty.accepts found = true <;> simp [ha, pure_ok]

theorem ofCompound_ok_iff :
    ofAssign ⟨some op⟩ target value line = .ok e ↔ ∃ place, target.place? = some place ∧
      ∃ ty, target.ty = some ty ∧ ∃ found, value.ty = some found ∧ ∃ stored,
        op.resultTy? ty found = some stored ∧
        ty.accepts stored = true ∧ .assign ⟨some ty, line⟩ place (some op) value = e := by
  unfold ofAssign
  cases hp : target.place? with
  | none => simp
  | some place =>
    simp only [bind_ok, valueTy_ok_iff, resultTy_ok_iff, Option.some.injEq, exists_eq_left']
    refine exists_congr fun ty => and_congr_right fun _ => exists_congr fun found => and_congr_right fun _ =>
      exists_congr fun stored => and_congr_right fun _ => ?_
    by_cases ha : ty.accepts stored = true <;> simp [ha, pure_ok]

theorem ofStep_ok_iff {s : Step} {first : Bool} :
    ofStep s first operand line = .ok e ↔ ∃ place, operand.place? = some place ∧ ∃ ty, operand.ty = some ty ∧
      ty.isNumeric = true ∧ .step ⟨some ty, line⟩ place s first = e := by
  unfold ofStep
  cases hp : operand.place? with
  | none => simp
  | some place =>
    simp only [bind_ok, valueTy_ok_iff, Option.some.injEq, exists_eq_left']
    refine exists_congr fun ty => and_congr_right fun _ => ?_
    by_cases hn : ty.isNumeric = true <;> simp [hn, pure_ok]

theorem ofMember_ok_iff {base : Expr} :
    ofMember base name line = .ok e ↔
    ∃ ty, base.ty = some ty ∧ ∃ axis, Axis.ofName? name = some axis ∧ axis.appliesTo ty = true ∧
      .member ⟨some .float, line⟩ base axis = e := by
  simp only [ofMember, bind_ok, valueTy_ok_iff]
  refine exists_congr fun ty => and_congr_right fun _ => ?_
  cases hn : Axis.ofName? name with
  | none => simp
  | some axis => by_cases ha : axis.appliesTo ty = true <;> simp [Option.filter, ha, pure_ok]

theorem ofCast_ok_iff {target : Ty} :
    ofCast target operand line = .ok e ↔
    ∃ ty, operand.ty = some ty ∧ target.castableFrom ty = true ∧
      .cast ⟨some target, line⟩ target operand = e := by
  simp only [ofCast, bind_ok, valueTy_ok_iff]
  refine exists_congr fun ty => and_congr_right fun _ => ?_
  by_cases hc : target.castableFrom ty = true <;> simp [hc, pure_ok]

theorem ofPart_ok_iff {part : Expr} :
    ofPart part = .ok e ↔
    (∃ ty, part.ty = some ty ∧ Ty.float.accepts ty = true) ∧ part.convertedTo .float = e := by
  simp only [ofPart, bind_ok, valueTy_ok_iff]
  cases ht : part.ty with
  | none => simp
  | some ty => by_cases ha : Ty.float.accepts ty = true <;> simp [ha, pure_ok]

theorem checkItems_ok_iff : checkItems items = .ok () ↔ ∀ e ∈ items, ∃ ty, e.ty = some ty ∧ ty ≠ .list := by
  refine ⟨checkItems_ok, fun h => ?_⟩
  induction items with
  | nil => rfl
  | cons item rest ih =>
    obtain ⟨ty, hty, hne⟩ := h item List.mem_cons_self
    simp only [checkItems, bind_ok, valueTy_ok_iff]
    exact ⟨ty, hty, by simpa [hne] using ih fun e he => h e (List.mem_cons_of_mem _ he)⟩

theorem ofParts_ok_iff {parts : List Expr} :
    ofParts parts line = .ok e ↔
    (parts.length = 3 ∧ .vector ⟨some .vector, line⟩ parts = e) ∨
      (parts.length = 4 ∧ .rotation ⟨some .rotation, line⟩ parts = e) := by
  unfold ofParts
  split <;> simp_all

theorem ofItems_ok_iff :
    ofItems items line = .ok e ↔
    (∀ i ∈ items, ∃ ty, i.ty = some ty ∧ ty ≠ .list) ∧ .list ⟨some .list, line⟩ items = e := by
  simp only [ofItems, bind_ok, pure_ok, ← checkItems_ok_iff]
  constructor
  · rintro ⟨⟨⟩, hc, rfl⟩
    exact ⟨hc, rfl⟩
  · rintro ⟨hc, rfl⟩
    exact ⟨(), hc, rfl⟩

theorem mapM_valueTy_ok_iff : es.mapM valueTy = .ok types ↔ es.map Expr.ty = types.map some := by
  induction es generalizing types with
  | nil => cases types <;> simp [pure_ok]
  | cons e es ih =>
    simp only [List.mapM_cons, bind_ok, pure_ok, valueTy_ok_iff, ih, List.map_cons]
    cases types with
    | nil => simp
    | cons ty types => simp

theorem convertedArgs_ok_iff {position : Nat} {args : List Expr} {params : List Param}
    (hargs : args.length = types.length) (hparams : params.length = types.length) :
    convertedArgs name line position (args.zip types) params = .ok es ↔
      List.Forall₂ (fun p ty => Ty.accepts p ty = true) (params.map Param.ty) types ∧
        List.zipWith convertedTo args (params.map Param.ty) = es := by
  induction types generalizing args params es position with
  | nil =>
    obtain rfl := List.length_eq_zero_iff.mp hargs
    obtain rfl := List.length_eq_zero_iff.mp hparams
    simp [convertedArgs]
  | cons ty types ih =>
    obtain ⟨arg, args, rfl⟩ := List.exists_cons_of_length_eq_add_one hargs
    obtain ⟨param, params, rfl⟩ := List.exists_cons_of_length_eq_add_one hparams
    simp only [List.length_cons, Nat.add_right_cancel_iff] at hargs hparams
    simp only [List.zip_cons_cons, convertedArgs, List.map_cons, List.forall₂_cons, List.zipWith_cons_cons]
    by_cases ha : param.ty.accepts ty = true
    · simp only [ha, if_true, bind_ok, pure_ok, ih hargs hparams, true_and]
      constructor
      · rintro ⟨rest, ⟨hall, rfl⟩, rfl⟩
        exact ⟨hall, rfl⟩
      · rintro ⟨hall, rfl⟩
        exact ⟨_, ⟨hall, rfl⟩, rfl⟩
    · simp [ha]

end Expr

namespace Env

variable {env : Env} {name : String} {line : Nat} {e : Expr} {types : List Ty} {args : List Expr}

theorem nameExpr_ok_iff : env.nameExpr name line = .ok e ↔ env.Resolves (.name name line) e := by
  unfold nameExpr
  constructor
  · intro h
    split at h
    · rename_i x ty hx
      cases h
      exact .load hx
    · rename_i hx
      split at h
      · rename_i c hc
        cases h
        exact .constant hx hc
      · split at h <;> cases h
  · intro h
    cases h with
    | load hx => simp [hx]
    | constant hx hc => simp [hx, hc]

theorem overload_ok_iff {f : HostFunction} :
    env.overload name types line = .ok f ↔ Selects (env.registry.overloads name env.visibility) types f := by
  unfold overload Selects
  generalize env.registry.overloads name env.visibility = candidates
  cases candidates with
  | nil => simp
  | cons g others =>
    simp only [List.isEmpty_cons, Bool.false_eq_true, if_false]
    cases hexact : (g :: others).find? fun g => g.params = types with
    | some found => simp
    | none =>
      generalize (g :: others).filter (reaches types) = viable
      match viable with
      | [] => simp
      | [only] => simp
      | first :: second :: more => simp

theorem scriptCall_ok_iff {signature : Signature} {index : Nat} (hlen : args.length = types.length) :
    scriptCall signature index (args.zip types) line = .ok e ↔
      List.Forall₂ (fun p ty => Ty.accepts p ty = true) (signature.params.map Param.ty) types ∧
        .call ⟨signature.returns, line⟩ (.script index)
          (List.zipWith Expr.convertedTo args (signature.params.map Param.ty)) = e := by
  unfold scriptCall
  by_cases hparams : signature.params.length = types.length
  · have hzip : signature.params.length = (args.zip types).length := by simp [hlen, hparams]
    simp only [hzip, if_true, bind_ok, pure_ok, Expr.convertedArgs_ok_iff hlen hparams]
    constructor
    · rintro ⟨es, ⟨hall, rfl⟩, rfl⟩
      exact ⟨hall, rfl⟩
    · rintro ⟨hall, rfl⟩
      exact ⟨_, ⟨hall, rfl⟩, rfl⟩
  · have hzip : signature.params.length ≠ (args.zip types).length := by simp [hlen, hparams]
    simp only [hzip, if_false, reduceCtorEq, false_iff, not_and]
    intro hall
    have := hall.length_eq
    rw [List.length_map] at this
    exact absurd this hparams

theorem hostCall_ok_iff (hlen : args.length = types.length) :
    env.hostCall name (args.zip types) line = .ok e ↔
      ∃ f, Selects (env.registry.overloads name env.visibility) types f ∧
        .call ⟨f.returns, line⟩ (.host f.id) (List.zipWith Expr.convertedTo args f.params) = e := by
  have hsnd : (args.zip types).map Prod.snd = types := List.map_snd_zip (by omega)
  have hconverted : ∀ params : List Ty, ((args.zip types).zip params).map (fun x => x.1.1.convertedTo x.2) =
      List.zipWith Expr.convertedTo args params := by
    intro params
    have hfst : (args.zip types).map Prod.fst = args := List.map_fst_zip (by omega)
    conv_rhs => rw [← hfst]
    rw [List.zipWith_map_left, List.zip_eq_zipWith, List.map_zipWith]
  simp only [hostCall, bind_ok, pure_ok, hsnd, overload_ok_iff, hconverted]

theorem callExpr_ok_iff :
    env.callExpr name args line = .ok e ↔ ∃ types : List Ty, args.map Expr.ty = types.map some ∧
      ((∃ index signature, env.names.functionIndex? name = some index ∧
          env.names.functions[index]? = some signature ∧
          List.Forall₂ (fun p ty => Ty.accepts p ty = true) (signature.params.map Param.ty) types ∧
          .call ⟨signature.returns, line⟩ (.script index)
            (List.zipWith Expr.convertedTo args (signature.params.map Param.ty)) = e) ∨
        (env.names.functionIndex? name = none ∧ ∃ f,
          Selects (env.registry.overloads name env.visibility) types f ∧
          .call ⟨f.returns, line⟩ (.host f.id) (List.zipWith Expr.convertedTo args f.params) = e)) := by
  simp only [callExpr, bind_ok, Expr.mapM_valueTy_ok_iff]
  refine exists_congr fun types => and_congr_right fun ht => ?_
  have hlen : args.length = types.length := by simpa using congrArg List.length ht
  cases hi : env.names.functionIndex? name with
  | none => simp [hostCall_ok_iff hlen]
  | some index =>
    cases hs : env.names.functions[index]? with
    | none => simp [hs]
    | some signature => simp [hs, scriptCall_ok_iff hlen]

mutual

/-- Elaboration finds just the expressions that terms stand for. -/
theorem elaborate_ok_iff (t : Term) {e : Expr} : env.elaborate t = .ok e ↔ env.Resolves t e := by
  cases t with
  | literal v line =>
    constructor
    · rintro ⟨⟩
      exact .literal
    · rintro ⟨⟩
      rfl
  | name name line => exact nameExpr_ok_iff
  | label name line =>
    constructor
    · rintro ⟨⟩
      exact .label
    · rintro ⟨⟩
      rfl
  | call name args line =>
    simp only [elaborate, bind_ok, elaborateAll_ok_iff args, callExpr_ok_iff]
    constructor
    · rintro ⟨es, hes, types, ht, ⟨index, signature, hi, hs, ha, rfl⟩ | ⟨hi, f, hf, rfl⟩⟩
      · exact .scriptCall hes ht hi hs ha
      · exact .hostCall hes ht hi hf
    · intro h
      cases h with
      | scriptCall hes ht hi hs ha => exact ⟨_, hes, _, ht, .inl ⟨_, _, hi, hs, ha, rfl⟩⟩
      | hostCall hes ht hi hf => exact ⟨_, hes, _, ht, .inr ⟨hi, _, hf, rfl⟩⟩
  | list items line =>
    simp only [elaborate, bind_ok, elaborateAll_ok_iff items, Expr.ofItems_ok_iff]
    constructor
    · rintro ⟨es, hes, ht, rfl⟩
      exact .list hes ht
    · rintro ⟨⟩
      exact ⟨_, ‹_›, ‹_›, rfl⟩
  | angle parts line =>
    simp only [elaborate, bind_ok, elaborateParts_ok_iff parts, Expr.ofParts_ok_iff]
    constructor
    · rintro ⟨_, ⟨es, hes, ht, rfl⟩, ⟨hl, rfl⟩ | ⟨hl, rfl⟩⟩
      · exact .vector hes ht (by simpa using hl)
      · exact .rotation hes ht (by simpa using hl)
    · intro h
      cases h with
      | vector hes ht hl => exact ⟨_, ⟨_, hes, ht, rfl⟩, .inl ⟨by simpa using hl, rfl⟩⟩
      | rotation hes ht hl => exact ⟨_, ⟨_, hes, ht, rfl⟩, .inr ⟨by simpa using hl, rfl⟩⟩
  | cast target operand line =>
    simp only [elaborate, bind_ok, elaborate_ok_iff operand, Expr.ofCast_ok_iff]
    constructor
    · rintro ⟨e, he, ty, ht, hc, rfl⟩
      exact .cast he ht hc
    · intro h
      cases h with
      | cast he ht hc => exact ⟨_, he, _, ht, hc, rfl⟩
  | unary op operand line =>
    simp only [elaborate, bind_ok, elaborate_ok_iff operand, Expr.ofUnary_ok_iff]
    constructor
    · rintro ⟨e, he, ty, ht, ⟨v, rfl, hn, rfl⟩ | ⟨result, hn, hr, rfl⟩⟩
      · exact .negative he ht hn
      · exact .unary he ht hn hr
    · intro h
      cases h with
      | negative he ht hn => exact ⟨_, he, _, ht, .inl ⟨_, rfl, hn, rfl⟩⟩
      | unary he ht hn hr => exact ⟨_, he, _, ht, .inr ⟨_, hn, hr, rfl⟩⟩
  | step s first operand line =>
    simp only [elaborate, bind_ok, elaborate_ok_iff operand, Expr.ofStep_ok_iff]
    constructor
    · rintro ⟨e, he, place, hp, ty, ht, hn, rfl⟩
      exact .step he hp ht hn
    · intro h
      cases h with
      | step he hp ht hn => exact ⟨_, he, _, hp, _, ht, hn, rfl⟩
  | member base name line =>
    simp only [elaborate, bind_ok, elaborate_ok_iff base, Expr.ofMember_ok_iff]
    constructor
    · rintro ⟨e, he, ty, ht, axis, hn, ha, rfl⟩
      exact .member he ht hn ha
    · intro h
      cases h with
      | member he ht hn ha => exact ⟨_, he, _, ht, _, hn, ha, rfl⟩
  | binary op left right line =>
    simp only [elaborate, bind_ok, elaborate_ok_iff left, elaborate_ok_iff right, Expr.ofBinary_ok_iff]
    constructor
    · rintro ⟨l, hl, r, hr, lt, hlt, rt, hrt, result, hres, rfl⟩
      exact .binary hl hr hlt hrt hres
    · intro h
      cases h with
      | binary hl hr hlt hrt hres => exact ⟨_, hl, _, hr, _, hlt, _, hrt, _, hres, rfl⟩
  | assign assignment target value line =>
    obtain ⟨op⟩ := assignment
    cases op with
    | none =>
      simp only [elaborate, bind_ok, elaborate_ok_iff target, elaborate_ok_iff value, Expr.ofAssign_ok_iff]
      constructor
      · rintro ⟨t, ht, v, hv, place, hp, ty, hty, found, hf, ha, rfl⟩
        exact .assign ht hv hp hty hf ha
      · intro h
        cases h with
        | assign ht hv hp hty hf ha => exact ⟨_, ht, _, hv, _, hp, _, hty, _, hf, ha, rfl⟩
    | some op =>
      simp only [elaborate, bind_ok, elaborate_ok_iff target, elaborate_ok_iff value, Expr.ofCompound_ok_iff]
      constructor
      · rintro ⟨t, ht, v, hv, place, hp, ty, hty, found, hf, stored, hs, ha, rfl⟩
        exact .compound ht hv hp hty hf hs ha
      · intro h
        cases h with
        | compound ht hv hp hty hf hs ha => exact ⟨_, ht, _, hv, _, hp, _, hty, _, hf, _, hs, ha, rfl⟩
  | broken problem =>
    constructor
    · rintro ⟨⟩
    · rintro ⟨⟩
  | brokenAfter before problem =>
    simp only [elaborate, bind_ok]
    constructor
    · rintro ⟨_, -, ⟨⟩⟩
    · rintro ⟨⟩

theorem elaborateAll_ok_iff (ts : List Term) {es : List Expr} :
    env.elaborateAll ts = .ok es ↔ List.Forall₂ env.Resolves ts es := by
  cases ts with
  | nil => simp [elaborateAll, eq_comm]
  | cons t rest =>
    simp only [elaborateAll, bind_ok, pure_ok, elaborate_ok_iff t, elaborateAll_ok_iff rest]
    constructor
    · rintro ⟨e, he, others, hrest, rfl⟩
      exact .cons he hrest
    · rintro ⟨⟩
      exact ⟨_, ‹_›, _, ‹_›, rfl⟩

theorem elaborateParts_ok_iff (ts : List Term) {ps : List Expr} :
    env.elaborateParts ts = .ok ps ↔ ∃ es, List.Forall₂ env.Resolves ts es ∧
      (∀ e ∈ es, ∃ ty, e.ty = some ty ∧ Ty.float.accepts ty = true) ∧
        es.map (fun e => e.convertedTo .float) = ps := by
  cases ts with
  | nil => simp [elaborateParts]
  | cons t rest =>
    simp only [elaborateParts, bind_ok, pure_ok, elaborate_ok_iff t, Expr.ofPart_ok_iff,
      elaborateParts_ok_iff rest]
    constructor
    · rintro ⟨e, he, part, ⟨hty, rfl⟩, others, ⟨es, hes, ht, rfl⟩, rfl⟩
      exact ⟨e :: es, .cons he hes, by simpa using ⟨hty, ht⟩, rfl⟩
    · rintro ⟨_, ⟨⟩, ht, rfl⟩
      rename_i e es he hes
      exact ⟨e, he, _, ⟨ht e List.mem_cons_self, rfl⟩, _,
        ⟨es, hes, fun x hx => ht x (List.mem_cons_of_mem _ hx), rfl⟩, rfl⟩

end

mutual

/-- A term that stands for an expression is not broken off. -/
theorem all_whole_of_resolves (t : Term) {e : Expr} (h : env.Resolves t e) : t.All .whole := by
  cases t with
  | literal | name | label => trivial
  | call name args line =>
    cases h with
    | scriptCall hes | hostCall hes => exact allOf_whole_of_resolves args hes
  | list items line =>
    cases h with
    | list hes => exact allOf_whole_of_resolves items hes
  | angle parts line =>
    cases h with
    | vector hes | rotation hes => exact allOf_whole_of_resolves parts hes
  | cast target operand line =>
    cases h with
    | cast he => exact all_whole_of_resolves operand he
  | unary op operand line =>
    cases h with
    | negative he | unary he => exact all_whole_of_resolves operand he
  | step s first operand line =>
    cases h with
    | step he => exact all_whole_of_resolves operand he
  | member base name line =>
    cases h with
    | member he => exact all_whole_of_resolves base he
  | binary op left right line =>
    cases h with
    | binary hl hr => exact ⟨all_whole_of_resolves left hl, all_whole_of_resolves right hr⟩
  | assign assignment target value line =>
    cases h with
    | assign ht hv | compound ht hv => exact ⟨all_whole_of_resolves target ht, all_whole_of_resolves value hv⟩
  | broken | brokenAfter => cases h

theorem allOf_whole_of_resolves (ts : List Term) {es : List Expr} (h : List.Forall₂ env.Resolves ts es) :
    Term.AllOf .whole ts := by
  cases ts with
  | nil => trivial
  | cons t rest =>
    cases h with
    | cons he hrest => exact ⟨all_whole_of_resolves t he, allOf_whole_of_resolves rest hrest⟩

end

/-- Tokens resolve to an expression just when they spell a term that stands for it, and they spell no
other term. -/
theorem elaborate_ofTokens_iff_spelled (env : Env) (line : Nat) (ts : List Token) :
    (∀ e, env.elaborate (Term.ofTokens line ts) = .ok e ↔ ∃ t, Term.Spelled ts t ∧ env.Resolves t e) ∧
      ∀ t u, Term.Spelled ts t → Term.Spelled ts u → t = u := by
  refine ⟨fun e => ⟨fun h => ?_, ?_⟩, fun t u ht hu => ht.unique hu⟩
  · have hres := (elaborate_ok_iff _).mp h
    exact ⟨_, Term.spelled_ofTokens (all_whole_of_resolves _ hres), hres⟩
  · rintro ⟨t, ht, hres⟩
    rw [ht.ofTokens_eq line]
    exact (elaborate_ok_iff t).mpr hres

end Env

end WorldScript
