import WorldScript.Proofs.Expr.Typing
import WorldScript.Proofs.Number.Rounding

/-! # Typing predicts what operations yield

Operands of accepted types give a value of the computed type, with one exception: a number or a vector is
divided by a number that is zero.  Numbers of different types meet in the wider one first, so it matters that
a whole number other than zero does not become the zero of the doubles.
-/

namespace WorldScript.Value

variable {v l r : Value} {p : Promoted} {op : BinaryOp}

/-- A number that is zero.  Of the doubles, both zeros are. -/
def IsZero : Value → Prop
  | .integer n => n = 0
  | .long n => n = 0
  | .float x => (x == 0.0) = true
  | _ => False

/-- A division, or a remainder, of a number by zero; or a division of a vector by zero. -/
def DividesByZero (op : BinaryOp) (l r : Value) : Prop :=
  (op = .div ∨ op = .mod) ∧ r.IsZero ∧ (l.ty.isNumeric = true ∨ op = .div ∧ l.ty = .vector)

theorem IsZero.isNumeric (h : v.IsZero) : v.ty.isNumeric = true := by
  cases v with
  | integer | float | long => rfl
  | string | key | vector | rotation | list => cases h

theorem asFloat?_beq_zero {x : Float} (h : v.asFloat? = some x) : (x == 0.0) = true ↔ v.IsZero := by
  cases v with
  | integer n =>
    cases h
    rw [Number.ofInt_beq_zero, IsZero, ← Int32.toInt_inj]
    rfl
  | long n =>
    cases h
    rw [Number.ofInt_beq_zero, IsZero, ← Int64.toInt_inj]
    rfl
  | float y =>
    cases h
    rfl
  | string | key | vector | rotation | list => cases h

theorem toInt64_eq_zero {n : Int32} : n.toInt64 = 0 ↔ n = 0 := by
  rw [← Int64.toInt_inj, ← Int32.toInt_inj, Int32.toInt_toInt64]
  rfl

/-- A number is zero in the wider type exactly when it is zero. -/
theorem promote_zeroRight (h : promote l r = some p) : p.ZeroRight ↔ r.IsZero := by
  unfold promote at h
  split at h
  · cases h
    rfl
  · cases h
    rfl
  · cases h
    exact toInt64_eq_zero
  · cases h
    rfl
  · obtain ⟨x, hx, rfl⟩ := Option.map_eq_some_iff.mp h
    exact asFloat?_beq_zero hx
  · obtain ⟨x, hx, rfl⟩ := Option.map_eq_some_iff.mp h
    rfl
  · cases h

theorem promote_isNumeric (h : promote l r = some p) : l.ty.isNumeric = true ∧ r.ty.isNumeric = true := by
  cases l <;> cases r <;> first | exact ⟨rfl, rfl⟩ | cases h

/-- Arithmetic fails by a division exactly where the numbers have the operator. -/
theorem arithmetic_faults (op : BinaryOp) (l r : Value) : arithmetic op l r = .error .divisionByZero ↔
    ∃ p, promote l r = some p ∧ p.has op = true ∧ (op = .div ∨ op = .mod) ∧ r.IsZero := by
  rw [arithmetic_eq]
  cases hp : promote l r with
  | none => simp [mismatch]
  | some p =>
    simp only [Option.some.injEq, exists_eq_left', ← promote_zeroRight hp, Option.bind_some, Promoted.has]
    cases hr : p.compute op with
    | none => simp [mismatch]
    | some result =>
      have hresult := Promoted.compute_eq hr
      split at hresult
      · rename_i hzero
        simp [hresult, hzero]
      · rename_i hzero
        obtain ⟨v, rfl, -⟩ := hresult
        simp only [Option.getD_some, Option.isSome_some, true_and, hzero, reduceCtorEq]

/-- A value that is no number is not zero. -/
theorem not_isZero_of_asFloat? (h : v.asFloat? = none) : ¬ v.IsZero := by
  intro hzero
  cases v with
  | integer | float | long => cases h
  | string | key | vector | rotation | list => cases hzero

theorem quotient_faults (l r : Value) :
    spatial .div l r = .error .divisionByZero ↔ l.ty = .vector ∧ r.IsZero := by
  cases l with
  | vector v =>
    cases hx : r.asFloat? with
    | none =>
      have hnot := not_isZero_of_asFloat? hx
      cases r with
      | integer | float | long => cases hx
      | string | key | vector | rotation | list => simp [spatial, mismatch, asFloat?, hnot]
    | some x =>
      have hquotient : spatial .div (.vector v) r =
          if x == 0.0 then .error .divisionByZero else .ok (.vector (v.scale (1.0 / x))) := by
        cases r with
        | integer | float | long =>
          cases hx
          rfl
        | string | key | vector | rotation | list => cases hx
      rw [hquotient, ← asFloat?_beq_zero hx]
      simp [ty]
  | rotation q => cases r <;> simp [spatial, mismatch, ty]
  | integer | float | string | key | list | long => simp [spatial, mismatch, ty]

theorem spatial_faults (h : spatial op l r = .error .divisionByZero) : op = .div := by
  unfold spatial at h
  repeat' split at h
  all_goals first
    | rfl
    | cases h

theorem isSpatial_eq_false (h : v.ty.isNumeric = true) : v.isSpatial = false := by
  cases v with
  | integer | float | long => rfl
  | string | key | vector | rotation | list => cases h

/-- The numbers that meet have the operator, where a remainder is one of whole numbers. -/
theorem has_of_division (hop : op = .div ∨ op = .mod) (hmod : op = .mod → p.ty ≠ .float) :
    p.has op = true := by
  rcases hop with rfl | rfl
  · cases p <;> rfl
  · cases p with
    | integers | longs => rfl
    | floats => exact absurd rfl (hmod rfl)

theorem combine_faults (hmod : op = .mod → l.ty.wider r.ty ≠ .float) :
    combine op l r = .error .divisionByZero ↔ DividesByZero op l r := by
  unfold combine
  split
  · rename_i hspatial
    constructor
    · intro h
      obtain rfl := spatial_faults h
      obtain ⟨hl, hr⟩ := (quotient_faults l r).mp h
      exact ⟨.inl rfl, hr, .inr ⟨rfl, hl⟩⟩
    · rintro ⟨-, hr, hl | ⟨rfl, hl⟩⟩
      · simp [isSpatial_eq_false hl, isSpatial_eq_false hr.isNumeric] at hspatial
      · exact (quotient_faults l r).mpr ⟨hl, hr⟩
  · rename_i hplain
    rw [arithmetic_faults]
    constructor
    · rintro ⟨p, hp, -, hop, hr⟩
      exact ⟨hop, hr, .inl (promote_isNumeric hp).1⟩
    · rintro ⟨hop, hr, hl | ⟨rfl, hl⟩⟩
      · obtain ⟨p, hp, hty⟩ := promote_numeric hl hr.isNumeric
        exact ⟨p, hp, has_of_division hop (by rw [hty]; exact hmod), hop, hr⟩
      · cases l with
        | vector => simp [isSpatial] at hplain
        | integer | float | string | key | rotation | list | long => cases hl

theorem sum_faults (l r : Value) : sum l r ≠ .error .divisionByZero := by
  intro h
  unfold sum at h
  split at h
  all_goals first
    | cases h
    | simp [combine_faults, DividesByZero] at h

theorem compare_faults (c : Comparison) (l r : Value) : compare c l r ≠ .error .divisionByZero := by
  unfold compare
  split <;> simp [mismatch]

theorem mod_whole {l r ty : Ty} (h : BinaryOp.mod.resultTy? l r = some ty) : l.wider r ≠ .float := by
  cases l <;> cases r <;> first | decide | cases h

/-- Operands of accepted types are divided by zero exactly when the divisor is a zero. -/
theorem binary_faults {result : Ty} (h : op.resultTy? l.ty r.ty = some result) :
    binary op l r = .error .divisionByZero ↔ DividesByZero op l r := by
  cases op with
  | and | or | equal | notEqual => simp [binary, DividesByZero]
  | less | lessEqual | greater | greaterEqual => simp [binary, compare_faults, DividesByZero]
  | add => simp [binary, sum_faults, DividesByZero]
  | mod => exact combine_faults fun _ => mod_whole h
  | div | mul | sub | shiftLeft | shiftRight | bitAnd | bitXor | bitOr => exact combine_faults (by simp)

/-- What typing accepts, the operations carry out with results of the types that it computes. -/
theorem typing_predicts :
    (∀ (op : BinaryOp) (l r : Value) (line : Nat) (ty : Ty), op.resultTy l.ty r.ty line = .ok ty →
      (DividesByZero op l r → binary op l r = .error .divisionByZero) ∧
        (¬ DividesByZero op l r → ∃ v, binary op l r = .ok v ∧ v.ty = ty)) ∧
    (∀ (op : UnaryOp) (v : Value) (ty : Ty), op.resultTy? v.ty = some ty → ∃ u,
      unary op v = .ok u ∧ u.ty = ty) ∧
    (∀ (target : Ty) (v : Value), target.castableFrom v.ty = true → ∃ u, cast target v = .ok u ∧
      u.ty = target) ∧
    ∀ (target : Ty) (v : Value), target.accepts v.ty = true → (v.coerce target).ty = target := by
  refine ⟨?_, fun _ _ _ h => unary_ty h, fun _ _ h => cast_ty h, fun _ _ h => coerce_ty h⟩
  intro op l r line ty h
  have hty := Expr.resultTy_ok h
  have hfaults := binary_faults hty
  refine ⟨hfaults.mpr, fun hnot => ?_⟩
  rcases binary_ty hty with hvalue | hfault
  · exact hvalue
  · exact absurd (hfaults.mp hfault) hnot

/-- A float is divided by a long, a vector by zero; a rotation is negated, a text is cast, an integer is
stored as a float. -/
theorem typing_predicts_samples :
    (∃ v, binary .div (.float 1.0) (.long 3) = .ok v ∧ v.ty = .float) ∧
    binary .div (.vector .zero) (.integer 0) = .error .divisionByZero ∧
    (∃ u, unary .negate (.rotation .identity) = .ok u ∧ u.ty = .rotation) ∧
    (∃ u, cast .integer (.string "0x1f") = .ok u ∧ u.ty = .integer) ∧
    ((Value.integer 7).coerce .float).ty = .float := by
  obtain ⟨hbinary, hunary, hcast, hcoerce⟩ := typing_predicts
  have hthree : ¬ DividesByZero .div (.float 1.0) (.long 3) := by
    rintro ⟨-, hzero, -⟩
    have h : (3 : Int64) = 0 := hzero
    exact absurd h (by decide)
  exact ⟨(hbinary .div (.float 1.0) (.long 3) 1 .float rfl).2 hthree,
    (hbinary .div (.vector .zero) (.integer 0) 1 .vector rfl).1 ⟨.inl rfl, rfl, .inr ⟨rfl, rfl⟩⟩,
    hunary .negate (.rotation .identity) .rotation rfl, hcast .integer (.string "0x1f") rfl,
    hcoerce .float (.integer 7) rfl⟩

end WorldScript.Value
