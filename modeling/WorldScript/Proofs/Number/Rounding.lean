import Mathlib
import WorldScript.Number.Double

/-! # Whole numbers as doubles

A whole number other than zero becomes a normal number, so it never equals the zero of the doubles.  The
steps are those of rounding: the significand is shifted to fifty-three bits, a carry is taken up by the
exponent, and the parts are packed.
-/

namespace WorldScript.Number

open Float.Model Float.Model.UnpackedFloat

theorem shiftRight_mantissa (em : ExtendedMantissa) (k : Nat) :
    (em >>> k).mantissa = em.mantissa / 2 ^ k := by
  induction k with
  | zero => simp [HShiftRight.hShiftRight, Nat.repeat]
  | succ k ih =>
    change (em >>> k).mantissa / 2 = _
    rw [ih, Nat.div_div_eq_div_mul, Nat.pow_succ]

theorem roundedMantissa_bounds (em : ExtendedMantissa) :
    em.mantissa ≤ em.roundedMantissa ∧ em.roundedMantissa ≤ em.mantissa + 1 := by
  obtain ⟨m, round, sticky⟩ := em
  cases round <;> cases sticky <;>
    simp [ExtendedMantissa.roundedMantissa, ExtendedMantissa.accuracy, Accuracy.roundToNearestEven]
  omega

def Normal (m : Nat) : Prop := 2 ^ 52 ≤ m ∧ m < 2 ^ 53

theorem Normal.log2 {m : Nat} (h : Normal m) : m.log2 = 52 := by
  have hne : m ≠ 0 := by have := h.1; omega
  exact (Nat.log2_eq_iff hne).mpr h

/-- Shifted to its first fifty-three bits, a number is normal. -/
theorem normal_shift {m k : Nat} (hm : m ≠ 0) (hk : m.log2 = 52 + k) : Normal (m / 2 ^ k) := by
  obtain ⟨hlow, hhigh⟩ := (Nat.log2_eq_iff hm).mp hk
  have hpos : 0 < 2 ^ k := Nat.two_pow_pos k
  constructor
  · rw [Nat.le_div_iff_mul_le hpos, ← Nat.pow_add]
    exact hlow
  · rw [Nat.div_lt_iff_lt_mul hpos, ← Nat.pow_add]
    have hexp : 53 + k = 52 + k + 1 := by omega
    rw [hexp]
    exact hhigh

/-- The exponent that a normal number wants is its own. -/
theorem targetExponent_of_log2 {m : Nat} {e : Int} (hm : 52 ≤ m.log2) (he : -1000 ≤ e) :
    Format.binary64.targetExponent (totalExponent m e) = e + (m.log2 - 52 : Nat) := by
  simp only [Format.targetExponent, totalExponent, Format.mantissaBits, Format.minExponent]
  omega

theorem shiftToTargetExponent_normal {m : Nat} {e : Int} (hm : 52 ≤ m.log2) (he : -1000 ≤ e) (a : Accuracy) :
    Normal (shiftToTargetExponent Format.binary64 m e a).1.mantissa ∧
      (shiftToTargetExponent Format.binary64 m e a).2 = e + (m.log2 - 52 : Nat) := by
  have hne : m ≠ 0 := by
    rintro rfl
    simp at hm
  have hshift : (e + (m.log2 - 52 : Nat) - e).toNat = m.log2 - 52 := by omega
  simp only [shiftToTargetExponent, shiftToExponent, targetExponent_of_log2 hm he, hshift,
    shiftRight_mantissa]
  refine ⟨?_, trivial⟩
  have hmantissa : (ExtendedMantissa.ofMantissaAndAccuracy m a).mantissa = m := by
    cases a with
    | exact => rfl
    | inexact o => cases o <;> rfl
  rw [hmantissa]
  exact normal_shift hne (by omega)

/-- A carry out of fifty-three bits leaves a power of two. -/
theorem normal_or_carry {em : ExtendedMantissa} (h : Normal em.mantissa) :
    Normal em.roundedMantissa ∨ em.roundedMantissa = 2 ^ 53 := by
  obtain ⟨hlow, hhigh⟩ := roundedMantissa_bounds em
  obtain ⟨hmin, hmax⟩ := h
  by_cases hcarry : em.roundedMantissa < 2 ^ 53
  · exact .inl ⟨by omega, hcarry⟩
  · exact .inr (by omega)

def IsNormal : UnpackedFloat → Prop
  | .finite _ m e _ => Normal m ∧ -1000 ≤ e
  | _ => False

theorem roundWithAccuracy_normal {m : Nat} {e : Int} (hm : 52 ≤ m.log2) (he : -1000 ≤ e) (sign : Sign)
    (a : Accuracy) : IsNormal (roundWithAccuracy Format.binary64 sign m e a) := by
  obtain ⟨hfirst, hexponent⟩ := shiftToTargetExponent_normal hm he a
  unfold roundWithAccuracy
  generalize shiftToTargetExponent Format.binary64 m e a = first at hfirst hexponent
  obtain ⟨em, e₁⟩ := first
  have he₁ : -1000 ≤ e₁ := by
    have h : e₁ = e + (m.log2 - 52 : Nat) := hexponent
    omega
  have hlog : 52 ≤ em.roundedMantissa.log2 := by
    rcases normal_or_carry hfirst with hnormal | hcarry
    · rw [hnormal.log2]
    · rw [hcarry, Nat.log2_two_pow]
      omega
  obtain ⟨hsecond, hlast⟩ := shiftToTargetExponent_normal hlog he₁ .exact
  have hne : (shiftToTargetExponent Format.binary64 em.roundedMantissa e₁ .exact).1.mantissa ≠ 0 := by
    have h := hsecond.1
    omega
  dsimp only
  rw [dif_neg hne]
  refine ⟨hsecond, ?_⟩
  rw [hlast]
  omega

/-- A positive number has fifty-three bits once it is shifted to the left far enough. -/
theorem round_normal {m : Nat} (hm : m ≠ 0) (sign : Sign) :
    IsNormal (UnpackedFloat.round Format.binary64 sign m 0) := by
  have htarget : Format.binary64.targetExponent (totalExponent m 0) = (m.log2 : Int) - 52 := by
    simp only [Format.targetExponent, totalExponent, Format.mantissaBits, Format.minExponent]
    omega
  have hlog : (m <<< (52 - m.log2)).log2 = m.log2 + (52 - m.log2) := by
    have hne : m <<< (52 - m.log2) ≠ 0 := by simpa [Nat.shiftLeft_eq] using hm
    obtain ⟨hlow, hhigh⟩ := (Nat.log2_eq_iff hm).mp rfl
    have hpos : 0 < 2 ^ (52 - m.log2) := Nat.two_pow_pos _
    refine (Nat.log2_eq_iff hne).mpr ⟨?_, ?_⟩
    · rw [Nat.shiftLeft_eq, Nat.pow_add]
      exact Nat.mul_le_mul_right _ hlow
    · rw [Nat.shiftLeft_eq, Nat.add_right_comm, Nat.pow_add]
      exact Nat.mul_lt_mul_of_pos_right hhigh hpos
  have hshift : ((0 : Int) - ((m.log2 : Int) - 52)).toNat = 52 - m.log2 := by omega
  simp only [UnpackedFloat.round, decreaseExponent, htarget, hshift]
  exact roundWithAccuracy_normal (by omega) (by omega) sign .exact

/-- Only a pattern whose exponent is zero stands for a zero. -/
theorem unpack_ne_zero {spec : Format} {b : BitVec spec.numBits} (h : unpackExponent b ≠ 0#_) (sign : Sign) :
    UnpackedFloat.unpack spec b ≠ .zero sign := by
  unfold UnpackedFloat.unpack
  dsimp only
  rw [if_neg h]
  split
  · split <;> simp
  · simp

theorem unpack_pack_ne_zero {f : UnpackedFloat} (h : IsNormal f) (sign : Sign) :
    (Float.Model.pack f).unpack ≠ .zero sign := by
  refine unpack_ne_zero ?_ sign
  cases f with
  | infinity | notANumber | zero => cases h
  | finite s m e hpos =>
    obtain ⟨hm, he⟩ := h
    have hlog : m.log2 + 1 = Format.binary64.mantissaBits := by
      rw [hm.log2]
      rfl
    simp only [Float.Model.pack, UnpackedFloat.pack]
    rw [if_pos hlog]
    split
    · simp [packedInfinity]
    · rename_i hsmall
      -- the exponent with its bias is neither all zeros nor all ones
      simp only [Format.exponentBias] at hsmall ⊢
      simp only [unpackExponent_packComponents]
      intro hzero
      have hnat := congrArg BitVec.toNat hzero
      simp only [BitVec.toNat_ofNat] at hnat
      omega

theorem ofInt_unpack_ne_zero {n : Int} (h : n ≠ 0) (sign : Sign) :
    (Number.ofInt n).toModel.unpack ≠ .zero sign := by
  refine unpack_pack_ne_zero ?_ sign
  unfold UnpackedFloat.ofInt UnpackedFloat.normalize
  split
  · rename_i hlt
    exact round_normal (by have := Int.compare_eq_lt.mp hlt; omega) _
  · rename_i heq
    exact absurd (Int.compare_eq_eq.mp heq) h
  · rename_i hgt
    exact round_normal (by have := Int.compare_eq_gt.mp hgt; omega) _

theorem compare_zero_eq {f : UnpackedFloat} {sign : Sign} (h : f.compare (.zero sign) = some .eq) :
    ∃ s, f = .zero s := by
  cases f with
  | zero s => exact ⟨s, rfl⟩
  | notANumber => cases h
  | infinity s => cases s <;> cases h
  | finite s m e hpos => cases s <;> cases h

/-- A whole number and the zero of the doubles are equal exactly when the number is zero. -/
theorem ofInt_beq_zero (n : Int) : (Number.ofInt n == 0.0) = true ↔ n = 0 := by
  have hzero : (0.0 : Float).toModel.unpack = .zero .positive := rfl
  constructor
  · intro h
    by_contra hne
    change ((Number.ofInt n).toModel.unpack.compare (0.0 : Float).toModel.unpack == some .eq) = true at h
    rw [hzero] at h
    obtain ⟨s, hs⟩ := compare_zero_eq (beq_iff_eq.mp h)
    exact ofInt_unpack_ne_zero hne s hs
  · rintro rfl
    decide +kernel

end WorldScript.Number
