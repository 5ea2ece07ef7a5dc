import WorldScript.Expr.Typing
import WorldScript.Value.Arith
import WorldScript.Value.Cast

/-! # Types of the values that operations yield

The types that elaboration computes for an operation are those of the values that come out when it is
carried out.  The only fault that operands of admitted types can meet is a division by zero.
-/

namespace WorldScript

def Gives (ty : Ty) (r : Except Fault Value) : Prop :=
  (∃ v, r = .ok v ∧ v.ty = ty) ∨ r = .error .divisionByZero

@[simp] theorem gives_ok {ty : Ty} {v : Value} : Gives ty (.ok v) ↔ v.ty = ty := by
  simp [Gives]

@[simp] theorem gives_divisionByZero {ty : Ty} : Gives ty (.error .divisionByZero) := by
  simp [Gives]

@[simp] theorem Ty.defaultValue_ty (ty : Ty) : ty.defaultValue.ty = ty := by
  cases ty <;> rfl

theorem Ty.accepts_self (ty : Ty) : ty.accepts ty = true := by
  cases ty <;> rfl

/-- Two numbers meet in the wider of their types. -/
theorem BinaryOp.resultTy?_of_wider {op : BinaryOp} {l r wide : Ty}
    (hop : op = .add ∨ op = .sub ∨ op = .mul ∨ op = .div) (hw : l.wider? r = some wide) :
    op.resultTy? l r = some wide := by
  rcases hop with rfl | rfl | rfl | rfl <;> cases l <;> cases r <;> first | exact hw | cases hw

namespace Value

variable {v l r : Value} {result : Ty} {op : BinaryOp}

@[simp] theorem ofBool_ty (b : Bool) : (ofBool b).ty = .integer := rfl

theorem coerce_ty {target : Ty} (h : target.accepts v.ty = true) : (v.coerce target).ty = target := by
  cases target <;> cases v <;> first | rfl | simp [Ty.accepts, ty] at h

theorem coerce_self (v : Value) : v.coerce v.ty = v := by
  cases v <;> rfl

theorem cast_ty {target : Ty} (h : target.castableFrom v.ty = true) :
    ∃ u, cast target v = .ok u ∧ u.ty = target := by
  by_cases hv : v.ty = target
  · exact ⟨v, by simp [cast, hv], hv⟩
  · cases target <;> cases v <;>
      first
      | exact ⟨_, rfl, rfl⟩
      | simp [Ty.castableFrom, Ty.isNumeric, ty] at h hv

theorem unary_ty {op : UnaryOp} (h : op.resultTy? v.ty = some result) :
    ∃ u, unary op v = .ok u ∧ u.ty = result := by
  cases op with
  | negate =>
    cases v <;> simp [UnaryOp.resultTy?, Ty.isNumeric, ty] at h <;> subst h <;>
      exact ⟨_, rfl, rfl⟩
  | not =>
    cases v <;> simp [UnaryOp.resultTy?, Ty.isIntegral, ty] at h <;> subst h <;>
      exact ⟨_, rfl, rfl⟩
  | bitNot =>
    cases v <;> simp [UnaryOp.resultTy?, Ty.isIntegral, ty] at h <;> subst h <;>
      exact ⟨_, rfl, rfl⟩

theorem component_ty {axis : Axis} (h : axis.appliesTo v.ty = true) :
    ∃ x, component axis v = .ok (.float x) := by
  cases v <;> simp [Axis.appliesTo, ty] at h
  all_goals cases axis <;> simp [component] at h ⊢

theorem setComponent_ty {axis : Axis} (x : Float) (h : axis.appliesTo v.ty = true) :
    ∃ u, setComponent axis x v = .ok u ∧ u.ty = v.ty := by
  cases v <;> simp [Axis.appliesTo, ty] at h
  all_goals cases axis <;> simp [setComponent, ty] at h ⊢

theorem asFloat?_of_ty (h : v.ty = .float) : ∃ x, v.asFloat? = some x := by
  cases v <;> simp [ty] at h
  exact ⟨_, rfl⟩

def Promoted.ty : Promoted → Ty
  | .integers .. => .integer
  | .longs .. => .long
  | .floats .. => .float

theorem promote_numeric (hl : l.ty.isNumeric = true) (hr : r.ty.isNumeric = true) :
    ∃ p, promote l r = some p ∧ p.ty = l.ty.wider r.ty := by
  cases l <;> simp [ty, Ty.isNumeric] at hl
  all_goals cases r <;> simp [ty, Ty.isNumeric] at hr
  all_goals exact ⟨_, rfl, rfl⟩

namespace Promoted

def compute (op : BinaryOp) : Promoted → Option (Except Fault Value)
  | .integers a b => (onIntegers op a b).map (Except.map integer)
  | .longs a b => (onLongs op a b).map (Except.map long)
  | .floats a b => (onFloats op a b).map (Except.map float)

def has (op : BinaryOp) (p : Promoted) : Bool := (p.compute op).isSome

def ZeroRight : Promoted → Prop
  | .integers _ b => b = 0
  | .longs _ b => b = 0
  | .floats _ b => (b == 0.0) = true

instance : DecidablePred ZeroRight
  | .integers _ b => inferInstanceAs (Decidable (b = 0))
  | .longs _ b => inferInstanceAs (Decidable (b = 0))
  | .floats _ b => inferInstanceAs (Decidable ((b == 0.0) = true))

/-- Numbers of one type give a number of that type, except in a division by zero. -/
theorem compute_eq {op : BinaryOp} {p : Promoted} {r : Except Fault Value} (h : p.compute op = some r) :
    if (op = .div ∨ op = .mod) ∧ p.ZeroRight then r = .error .divisionByZero else ∃ v, r = .ok v ∧
      v.ty = p.ty := by
  cases p <;> cases op <;> cases h
  case integers.div | integers.mod | longs.div | longs.mod | floats.div =>
    simp only [ZeroRight, reduceCtorEq, or_true, true_or, true_and]
    split
    · rfl
    · exact ⟨_, rfl, rfl⟩
  all_goals
    simp only [reduceCtorEq, or_self, false_and, if_false]
    exact ⟨_, rfl, rfl⟩

end Promoted

theorem arithmetic_eq (op : BinaryOp) (l r : Value) :
    arithmetic op l r = ((promote l r).bind (Promoted.compute op)).getD (mismatch op l r) := by
  unfold arithmetic
  cases promote l r with
  | none => rfl
  | some p => cases p <;> rfl

theorem arithmetic_gives {p : Promoted} (hp : promote l r = some p) (hop : p.has op = true) :
    Gives p.ty (arithmetic op l r) := by
  obtain ⟨result, hr⟩ := Option.isSome_iff_exists.mp hop
  rw [arithmetic_eq, hp, Option.bind_some, hr, Option.getD_some]
  have hresult := Promoted.compute_eq hr
  split at hresult
  · rw [hresult]
    exact gives_divisionByZero
  · obtain ⟨v, rfl, hv⟩ := hresult
    exact gives_ok.mpr hv

/-- The four operators that every number type has. -/
theorem arithmetic_numeric (hop : op = .add ∨ op = .sub ∨ op = .mul ∨ op = .div)
    (h : l.ty.wider? r.ty = some result) : Gives result (arithmetic op l r) := by
  simp only [Ty.wider?, Option.ite_none_right_eq_some, Bool.and_eq_true, Option.some.injEq] at h
  obtain ⟨⟨hl, hr⟩, rfl⟩ := h
  obtain ⟨p, hp, ht⟩ := promote_numeric hl hr
  have hhas : p.has op = true := by
    rcases hop with rfl | rfl | rfl | rfl <;> cases p <;> rfl
  exact ht ▸ arithmetic_gives hp hhas

/-- The operators that only whole numbers have. -/
theorem arithmetic_integral
    (hop : op = .mod ∨ op = .shiftLeft ∨ op = .shiftRight ∨ op = .bitAnd ∨ op = .bitXor ∨ op = .bitOr)
    (h : l.ty.widerIntegral? r.ty = some result) : Gives result (arithmetic op l r) := by
  simp only [Ty.widerIntegral?, Option.ite_none_right_eq_some, Bool.and_eq_true, Option.some.injEq] at h
  obtain ⟨⟨hl, hr⟩, rfl⟩ := h
  have hwhole : l.ty.wider r.ty ≠ .float := by
    cases l <;> cases r <;> simp [ty, Ty.isIntegral, Ty.wider] at hl hr ⊢
  obtain ⟨p, hp, ht⟩ := promote_numeric (l := l) (r := r)
    (by cases l <;> first | rfl | simp [ty, Ty.isIntegral] at hl)
    (by cases r <;> first | rfl | simp [ty, Ty.isIntegral] at hr)
  have hhas : p.has op = true := by
    cases p with
    | integers a b => rcases hop with rfl | rfl | rfl | rfl | rfl | rfl <;> rfl
    | longs a b => rcases hop with rfl | rfl | rfl | rfl | rfl | rfl <;> rfl
    | floats a b => exact absurd ht.symm hwhole
  exact ht ▸ arithmetic_gives hp hhas

theorem compare_ty {c : Comparison} (hl : l.ty.isNumeric = true) (hr : r.ty.isNumeric = true) :
    Gives .integer (compare c l r) := by
  obtain ⟨p, hp, _⟩ := promote_numeric hl hr
  simp [compare, hp]

/-- Numbers are not combined as vectors or rotations are. -/
theorem combine_of_wider (h : l.ty.wider? r.ty = some result) : combine op l r = arithmetic op l r := by
  cases l <;> cases r <;> first | rfl | simp [Ty.wider?, Ty.isNumeric, ty] at h

theorem combine_of_widerIntegral (h : l.ty.widerIntegral? r.ty = some result) :
    combine op l r = arithmetic op l r := by
  cases l <;> cases r <;> first | rfl | simp [Ty.widerIntegral?, Ty.isIntegral, ty] at h

theorem combine_integral
    (hop : op = .mod ∨ op = .shiftLeft ∨ op = .shiftRight ∨ op = .bitAnd ∨ op = .bitXor ∨ op = .bitOr)
    (h : l.ty.widerIntegral? r.ty = some result) : Gives result (combine op l r) :=
  combine_of_widerIntegral h ▸ arithmetic_integral hop h

theorem combine_wider {wide : Ty} (hop : op = .add ∨ op = .sub ∨ op = .mul ∨ op = .div)
    (hw : l.ty.wider? r.ty = some wide) (h : op.resultTy? l.ty r.ty = some result) :
    Gives result (combine op l r) := by
  cases (BinaryOp.resultTy?_of_wider hop hw).symm.trans h
  exact combine_of_wider hw ▸ arithmetic_numeric hop hw

theorem sum_ty (h : BinaryOp.add.resultTy? l.ty r.ty = some result) : Gives result (sum l r) := by
  cases hw : l.ty.wider? r.ty with
  | some wide =>
    have hsum : sum l r = combine .add l r := by
      cases l <;> cases r <;> first | rfl | simp [Ty.wider?, Ty.isNumeric, ty] at hw
    exact hsum ▸ combine_wider (.inl rfl) hw h
  | none =>
    cases l <;> cases r <;> simp [BinaryOp.resultTy?, Ty.wider?, Ty.isNumeric, ty] at h hw <;> subst h <;>
      simp [sum, combine, isSpatial, spatial, ty]

theorem difference_ty (h : BinaryOp.sub.resultTy? l.ty r.ty = some result) :
    Gives result (combine .sub l r) := by
  cases hw : l.ty.wider? r.ty with
  | some wide => exact combine_wider (.inr (.inl rfl)) hw h
  | none =>
    cases l <;> cases r <;> simp [BinaryOp.resultTy?, Ty.wider?, Ty.isNumeric, ty] at h hw <;> subst h <;>
      simp [combine, isSpatial, spatial, ty]

theorem product_ty (h : BinaryOp.mul.resultTy? l.ty r.ty = some result) :
    Gives result (combine .mul l r) := by
  cases hw : l.ty.wider? r.ty with
  | some wide => exact combine_wider (.inr (.inr (.inl rfl))) hw h
  | none =>
    cases l <;> cases r <;> simp [BinaryOp.resultTy?, Ty.wider?, Ty.isNumeric, ty] at h hw <;> subst h <;>
      simp [combine, isSpatial, spatial, asFloat?, ty]

theorem quotient_ty (h : BinaryOp.div.resultTy? l.ty r.ty = some result) :
    Gives result (combine .div l r) := by
  cases hw : l.ty.wider? r.ty with
  | some wide => exact combine_wider (.inr (.inr (.inr rfl))) hw h
  | none =>
    cases l <;> cases r <;> simp [BinaryOp.resultTy?, Ty.wider?, Ty.isNumeric, ty] at h hw <;> subst h <;>
      simp only [combine, isSpatial, spatial, asFloat?, Bool.true_or, if_true]
    all_goals first
      | exact gives_ok.mpr rfl
      | split <;> simp [ty]

theorem remainder_ty (h : BinaryOp.mod.resultTy? l.ty r.ty = some result) :
    Gives result (combine .mod l r) := by
  cases hw : l.ty.widerIntegral? r.ty with
  | some wide =>
    have hres : BinaryOp.mod.resultTy? l.ty r.ty = l.ty.widerIntegral? r.ty := by
      cases l <;> cases r <;> first | rfl | simp [Ty.widerIntegral?, Ty.isIntegral, ty] at hw
    exact combine_integral (.inl rfl) (hres ▸ h)
  | none =>
    cases l <;> cases r <;> simp [BinaryOp.resultTy?, Ty.widerIntegral?, Ty.isIntegral, ty] at h hw
    subst h
    simp [combine, isSpatial, spatial, ty]

/-- An operation on operands of admitted types gives a value of the computed type or divides by zero. -/
theorem binary_ty (h : op.resultTy? l.ty r.ty = some result) : Gives result (binary op l r) := by
  have ordered {c : Comparison} (hn : (if l.ty.isNumeric && r.ty.isNumeric then some Ty.integer else none) =
      some result) : Gives result (compare c l r) := by
    simp only [Option.ite_none_right_eq_some, Bool.and_eq_true, Option.some.injEq] at hn
    exact hn.2 ▸ compare_ty hn.1.1 hn.1.2
  cases op with
  | and | or | equal | notEqual =>
    simp only [BinaryOp.resultTy?, Option.ite_none_right_eq_some, Option.some.injEq] at h
    exact gives_ok.mpr h.2
  | less | lessEqual | greater | greaterEqual => exact ordered h
  | add => exact sum_ty h
  | sub => exact difference_ty h
  | mul => exact product_ty h
  | div => exact quotient_ty h
  | mod => exact remainder_ty h
  | shiftLeft | shiftRight | bitAnd | bitXor | bitOr => exact combine_integral (by simp) h

end Value

end WorldScript
