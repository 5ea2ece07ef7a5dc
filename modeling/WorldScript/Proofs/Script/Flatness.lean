import WorldScript.Proofs.Script.Sight
import WorldScript.Proofs.Value.Typing

/-! # Lists without lists

A flat value is no list, or a list with no list among its items.  Operators and casts make flat values of
flat values.  The code of a script pushes flat values only, as long as the constants of its registry are
flat.
-/

namespace WorldScript

theorem Ty.wider_ne_list (l r : Ty) : l.wider r ≠ .list := by
  unfold wider
  split
  · simp
  · split <;> simp

theorem Ty.wider?_ne_list (l r : Ty) : l.wider? r ≠ some .list := by
  simp [wider?, wider_ne_list]

theorem Ty.widerIntegral?_ne_list (l r : Ty) : l.widerIntegral? r ≠ some .list := by
  simp [widerIntegral?, wider_ne_list]

/-- Only a sum is a list, and only if one of its operands is. -/
theorem BinaryOp.add_of_resultTy?_list {op : BinaryOp} {l r : Ty} (h : op.resultTy? l r = some .list) :
    op = .add ∧ (l = .list ∨ r = .list) := by
  have hnumber := Ty.wider?_ne_list l r
  have hwhole := Ty.widerIntegral?_ne_list l r
  cases op with
  | add =>
    refine ⟨rfl, ?_⟩
    simp only [resultTy?] at h
    split at h
    · exact .inl rfl
    · exact .inr rfl
    all_goals first
      | cases h
      | exact absurd h hnumber
  | sub | mul | div =>
    simp only [resultTy?] at h
    split at h
    all_goals first
      | cases h
      | exact absurd h hnumber
  | mod =>
    simp only [resultTy?] at h
    split at h
    · cases h
    · exact absurd h hwhole
  | shiftLeft | shiftRight | bitAnd | bitXor | bitOr => exact absurd h hwhole
  | and | or | equal | notEqual | less | lessEqual | greater | greaterEqual => simp [resultTy?] at h

namespace Value

variable {v l r u : Value} {target : Ty} {axis : Axis}

def Flat : Value → Prop
  | .list items => ∀ item ∈ items, item.ty ≠ .list
  | _ => True

theorem Flat.of_ty (h : v.ty ≠ .list) : v.Flat := by
  cases v with
  | list items => exact absurd rfl h
  | integer | float | string | key | vector | rotation | long => trivial

theorem defaultValue_flat (ty : Ty) : ty.defaultValue.Flat := by
  cases ty with
  | list => exact fun item hi => absurd hi List.not_mem_nil
  | integer | float | string | key | vector | rotation | long => trivial

theorem Flat.coerce (h : v.Flat) (target : Ty) : (v.coerce target).Flat := by
  unfold Value.coerce
  split
  case h_6 => exact h
  all_goals trivial

def asItems : Value → List Value
  | .list items => items
  | v => [v]

theorem Flat.asItems (h : v.Flat) : ∀ item ∈ v.asItems, item.ty ≠ .list := by
  cases v with
  | list items => exact h
  | integer | float | string | key | vector | rotation | long =>
    intro item hi
    rw [List.mem_singleton.mp hi]
    simp [ty]

theorem cast_list (v : Value) : cast .list v = .ok (.list v.asItems) := by
  cases v <;> rfl

theorem sum_of_list (h : l.ty = .list ∨ r.ty = .list) : sum l r = .ok (.list (l.asItems ++ r.asItems)) := by
  cases l <;> cases r <;> first | rfl | simp [ty] at h

theorem ty_of_cast (h : cast target v = .ok u) : u.ty = target := by
  unfold cast at h
  split at h
  · cases h
    assumption
  · split at h <;> cases h <;> rfl

theorem Flat.cast (hv : v.Flat) (h : cast target v = .ok u) : u.Flat := by
  by_cases ht : target = .list
  · rw [ht, cast_list] at h
    cases h
    exact hv.asItems
  · exact .of_ty (ty_of_cast h ▸ ht)

/-- No operator puts a list into a list. -/
theorem Flat.binary {op : BinaryOp} {result : Ty} (hl : l.Flat) (hr : r.Flat)
    (hty : op.resultTy? l.ty r.ty = some result) (h : binary op l r = .ok u) : u.Flat := by
  have hu : u.ty = result := by simpa [h] using binary_ty hty
  by_cases hresult : result = .list
  · rw [hresult] at hty
    obtain ⟨rfl, hlist⟩ := BinaryOp.add_of_resultTy?_list hty
    have hsum : Except.ok u = Except.ok (Value.list (l.asItems ++ r.asItems)) :=
      h.symm.trans (sum_of_list hlist)
    cases hsum
    intro item hi
    rcases List.mem_append.mp hi with hi | hi
    · exact hl.asItems item hi
    · exact hr.asItems item hi
  · exact .of_ty (hu ▸ hresult)

theorem unary_flat {op : UnaryOp} (h : unary op v = .ok u) : u.Flat := by
  unfold unary at h
  split at h <;> cases h <;> trivial

theorem component_flat (h : component axis v = .ok u) : u.Flat := by
  unfold component at h
  split at h <;> cases h <;> trivial

theorem setComponent_flat {x : Float} (h : setComponent axis x v = .ok u) : u.Flat := by
  unfold setComponent at h
  split at h <;> cases h <;> trivial

end Value

theorem ofNumbers_flat (xs : List Float) : (ofNumbers xs).Flat := by
  unfold ofNumbers
  split
  · trivial
  · trivial
  · exact Value.defaultValue_flat .list

def Vocabulary.flat : Vocabulary := ⟨Value.Flat, fun _ => True⟩

namespace Registry

theorem mem_constants_of_constant? {r : Registry} {name : String} {v : Visibility} {c : HostConstant}
    (h : r.constant? name v = some c) : c ∈ r.constants := by
  have hmem := List.mem_of_find?_eq_some h
  cases hg : r.constantTable.get? name with
  | none => simp [hg] at hmem
  | some found =>
    rw [hg] at hmem
    exact List.mem_flatMap.mpr ⟨(name, found), Table.mem_of_get? hg, hmem⟩

def FlatConstants (r : Registry) : Prop := ∀ c ∈ r.constants, c.value.Flat

end Registry

namespace Vocabulary

theorem flat_covers {r : Registry} (hr : r.FlatConstants) (v : Visibility) : flat.Covers r v where
  constant name c hc := (hr c (Registry.mem_constants_of_constant? hc)).coerce c.ty
  function name f hf := trivial
  negated info a b ha hb := by
    unfold Expr.negated? at hb
    split at hb <;> cases hb <;> trivial
  one ty a ha := by
    cases ty <;> cases ha <;> trivial
  default ty := Value.defaultValue_flat ty

theorem flat_admits (tokens : List Token) : flat.leaves.Admits tokens where
  literal t ht v hv := by
    unfold Grammar.literal? at hv
    split at hv <;> cases hv <;> trivial
  integer t ht n hn := trivial
  float t ht x hx := trivial
  syntactic line cause := Diagnostic.syntactic_blames line cause

end Vocabulary

/-- A compiled program pushes flat values only. -/
theorem Script.compile_flat {registry : Registry} (hr : registry.FlatConstants) {options : CompileOptions}
    {replacements : Replacements} {source : String} {p : Program Chunk}
    (h : compile registry options replacements source = .ok p) : p.Within .flat := by
  obtain ⟨ds, tokens, declarations, -, -, hdeclarations, -, hcode⟩ := compile_stages h
  have hdrawn := (Outline.ofDeclarations_drawn declarations).1
  have htokens := (Declaration.listOfTokens_yields tokens).of_ok hdeclarations
  exact hcode.within (Vocabulary.flat_covers hr _) (Vocabulary.flat_admits tokens) hdrawn htokens

end WorldScript
