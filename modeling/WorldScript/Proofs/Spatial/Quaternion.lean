import Mathlib.Algebra.Quaternion
import Mathlib.Tactic.NormNum
import Mathlib.Tactic.Ring
import WorldScript.Value.Arith

/-! # Rotations as quaternions

A rotation is the quaternion with its components; the rotation by `a` first and then by `b` is the
product of `b` and `a`.  A vector is a quaternion without a real part, and to rotate it is to conjugate
it.  Over exact numbers, from any commutative ring, the laws of rotations are those of quaternions.
-/

namespace WorldScript

variable {R : Type} [CommRing R]

namespace Rotation

def toQuaternion (r : Rotation R) : Quaternion R := ⟨r.s, r.x, r.y, r.z⟩

@[simp] theorem re_toQuaternion (r : Rotation R) : r.toQuaternion.re = r.s := rfl
@[simp] theorem imI_toQuaternion (r : Rotation R) : r.toQuaternion.imI = r.x := rfl
@[simp] theorem imJ_toQuaternion (r : Rotation R) : r.toQuaternion.imJ = r.y := rfl
@[simp] theorem imK_toQuaternion (r : Rotation R) : r.toQuaternion.imK = r.z := rfl

theorem toQuaternion_injective {a b : Rotation R} (h : a.toQuaternion = b.toQuaternion) : a = b := by
  cases a
  cases b
  obtain ⟨rfl, rfl, rfl, rfl⟩ := QuaternionAlgebra.mk.inj h
  rfl

@[simp] theorem toQuaternion_identity : (identity : Rotation R).toQuaternion = 1 := rfl

/-- The rotation that comes first is the right factor. -/
@[simp] theorem toQuaternion_mul (a b : Rotation R) :
    (a.mul b).toQuaternion = b.toQuaternion * a.toQuaternion := by
  apply Quaternion.ext
  · rw [Quaternion.re_mul]
    rfl
  · rw [Quaternion.imI_mul]
    rfl
  · rw [Quaternion.imJ_mul]
    rfl
  · rw [Quaternion.imK_mul]
    rfl

@[simp] theorem toQuaternion_conjugate (r : Rotation R) : r.conjugate.toQuaternion = star r.toQuaternion := by
  apply Quaternion.ext <;> simp [conjugate]

theorem mul_mul (a b c : Rotation R) : (a.mul b).mul c = a.mul (b.mul c) := by
  apply toQuaternion_injective
  simp only [toQuaternion_mul, mul_assoc]

theorem identity_mul (a : Rotation R) : identity.mul a = a := by
  apply toQuaternion_injective
  rw [toQuaternion_mul, toQuaternion_identity, mul_one]

theorem mul_identity (a : Rotation R) : a.mul identity = a := by
  apply toQuaternion_injective
  rw [toQuaternion_mul, toQuaternion_identity, one_mul]

def normSq (r : Rotation R) : R := r.x ^ 2 + r.y ^ 2 + r.z ^ 2 + r.s ^ 2

theorem normSq_toQuaternion (r : Rotation R) : Quaternion.normSq r.toQuaternion = r.normSq := by
  rw [Quaternion.normSq_def', normSq, re_toQuaternion, imI_toQuaternion, imJ_toQuaternion, imK_toQuaternion]
  ring

end Rotation

namespace Vec3

def toQuaternion (v : Vec3 R) : Quaternion R := (Rotation.mk v.x v.y v.z 0).toQuaternion

theorem toQuaternion_injective {v w : Vec3 R} (h : v.toQuaternion = w.toQuaternion) : v = w := by
  cases v
  cases w
  obtain ⟨-, rfl, rfl, rfl⟩ := QuaternionAlgebra.mk.inj h
  rfl

theorem toQuaternion_scale (v : Vec3 R) (factor : R) :
    (v.scale factor).toQuaternion = factor • v.toQuaternion := by
  apply Quaternion.ext <;> simp [toQuaternion, scale, mul_comm]

/-- The product that rotates a vector has no real part, so nothing of it is dropped. -/
theorem toQuaternion_rotate (v : Vec3 R) (r : Rotation R) :
    (v.rotate r).toQuaternion = r.toQuaternion * v.toQuaternion * star r.toQuaternion := by
  have hreal : ((r.conjugate.mul ⟨v.x, v.y, v.z, 0⟩).mul r).s = 0 := by
    simp only [Rotation.mul, Rotation.conjugate]
    ring
  have himage : (v.rotate r).toQuaternion = ((r.conjugate.mul ⟨v.x, v.y, v.z, 0⟩).mul r).toQuaternion := by
    rw [Rotation.toQuaternion, hreal]
    rfl
  rw [himage, Rotation.toQuaternion_mul, Rotation.toQuaternion_mul,
    Rotation.toQuaternion_conjugate, mul_assoc]
  rfl

/-- To rotate by one rotation and then by another is to rotate by their product. -/
theorem rotate_rotate (v : Vec3 R) (a b : Rotation R) : (v.rotate a).rotate b = v.rotate (a.mul b) := by
  apply toQuaternion_injective
  simp only [toQuaternion_rotate, Rotation.toQuaternion_mul, star_mul, mul_assoc]

/-- The way there and back stretches a vector by the fourth power of the norm. -/
theorem rotate_conjugate (v : Vec3 R) (r : Rotation R) :
    (v.rotate r).rotate r.conjugate = v.scale (r.normSq ^ 2) := by
  apply toQuaternion_injective
  have hback : star r.toQuaternion * r.toQuaternion = (r.normSq : Quaternion R) := by
    rw [Quaternion.star_mul_self, Rotation.normSq_toQuaternion]
  calc ((v.rotate r).rotate r.conjugate).toQuaternion
      = star r.toQuaternion * r.toQuaternion * v.toQuaternion * (star r.toQuaternion * r.toQuaternion) := by
        simp only [toQuaternion_rotate, Rotation.toQuaternion_conjugate, star_star, mul_assoc]
    _ = (r.normSq ^ 2) • v.toQuaternion := by
        rw [hback, Quaternion.coe_mul_eq_smul, Quaternion.mul_coe_eq_smul, smul_smul, sq]
    _ = (v.scale (r.normSq ^ 2)).toQuaternion := (toQuaternion_scale v _).symm

/-- A rotation of norm one is undone by the rotation the other way round. -/
theorem rotate_back {r : Rotation R} (h : r.normSq = 1) (v : Vec3 R) :
    (v.rotate r).rotate r.conjugate = v := by
  rw [rotate_conjugate, h, one_pow]
  simp only [scale, mul_one]

end Vec3

/-- Rotations over exact numbers are associative with the identity as unit and rotate vectors one after
the other; the way there and back stretches a vector by the fourth power of the norm, so that for a
rotation of norm one it leads back.  The operators on values are these formulas on doubles. -/
theorem rotations_consistent (R : Type) [CommRing R] :
    (∀ a b c : Rotation R, (a.mul b).mul c = a.mul (b.mul c)) ∧
      (∀ a : Rotation R, Rotation.identity.mul a = a ∧ a.mul Rotation.identity = a) ∧
      (∀ (v : Vec3 R) (a b : Rotation R), (v.rotate a).rotate b = v.rotate (a.mul b)) ∧
      (∀ (v : Vec3 R) (a : Rotation R), (v.rotate a).rotate a.conjugate = v.scale (a.normSq ^ 2)) ∧
      (∀ (v : Vec3 R) (a : Rotation R), a.normSq = 1 → (v.rotate a).rotate a.conjugate = v) ∧
      ∀ (v : Vec3 Float) (a b : Rotation Float),
        Value.binary .mul (.rotation a) (.rotation b) = .ok (.rotation (a.mul b)) ∧
        Value.binary .mul (.vector v) (.rotation a) = .ok (.vector (v.rotate a)) ∧
        Value.binary .div (.vector v) (.rotation a) = .ok (.vector (v.rotate a.conjugate)) := by
  refine ⟨Rotation.mul_mul, fun a => ⟨a.identity_mul, a.mul_identity⟩, Vec3.rotate_rotate,
    Vec3.rotate_conjugate, ?_, ?_⟩
  · exact fun v a h => Vec3.rotate_back h v
  · exact fun v a b => ⟨rfl, rfl, rfl⟩

def Sample.third : Rotation ℚ := ⟨1 / 2, 1 / 2, 1 / 2, 1 / 2⟩

theorem third_turns_back :
    Sample.third.normSq = 1 ∧ (Vec3.mk 1 2 3).rotate Sample.third = ⟨3, 1, 2⟩ ∧
      (Vec3.mk 3 1 2).rotate Sample.third.conjugate = ⟨1, 2, 3⟩ := by
  have hnorm : Sample.third.normSq = 1 := by norm_num [Sample.third, Rotation.normSq]
  have hturn : (Vec3.mk 1 2 3).rotate Sample.third = ⟨3, 1, 2⟩ := by
    norm_num [Vec3.rotate, Rotation.mul, Rotation.conjugate, Sample.third]
  have hback := (rotations_consistent ℚ).2.2.2.2.1 ⟨1, 2, 3⟩ Sample.third hnorm
  exact ⟨hnorm, hturn, hturn ▸ hback⟩

end WorldScript
