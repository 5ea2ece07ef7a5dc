/-! # Vectors and rotations

The component formulas are stated once, over any type with the operations they use, and run on
doubles.  A rotation is a quaternion with real part `s`.  Products are written in the order in which
their terms are summed.
-/

namespace WorldScript

structure Vec3 (α : Type) where
  x : α
  y : α
  z : α
deriving BEq

/-- A quaternion; `s` is its real part. -/
structure Rotation (α : Type) where
  x : α
  y : α
  z : α
  s : α
deriving BEq

inductive Axis where
  | x | y | z | s
deriving DecidableEq

namespace Axis

def ofName? (name : String) : Option Axis :=
  if name = "x" then some .x
  else if name = "y" then some .y
  else if name = "z" then some .z
  else if name = "s" then some .s
  else none

def name : Axis → String
  | .x => "x"
  | .y => "y"
  | .z => "z"
  | .s => "s"

end Axis

variable {α : Type}

namespace Vec3

def zero [OfNat α 0] : Vec3 α := ⟨0, 0, 0⟩

def add [Add α] (a b : Vec3 α) : Vec3 α := ⟨a.x + b.x, a.y + b.y, a.z + b.z⟩

def sub [Sub α] (a b : Vec3 α) : Vec3 α := ⟨a.x - b.x, a.y - b.y, a.z - b.z⟩

def scale [Mul α] (a : Vec3 α) (factor : α) : Vec3 α := ⟨a.x * factor, a.y * factor, a.z * factor⟩

def dot [Add α] [Mul α] (a b : Vec3 α) : α := a.x * b.x + a.y * b.y + a.z * b.z

def cross [Sub α] [Mul α] (a b : Vec3 α) : Vec3 α :=
  ⟨a.y * b.z - a.z * b.y, a.z * b.x - a.x * b.z, a.x * b.y - a.y * b.x⟩

end Vec3

namespace Rotation

def identity [OfNat α 0] [OfNat α 1] : Rotation α := ⟨0, 0, 0, 1⟩

def mul [Add α] [Sub α] [Mul α] (a b : Rotation α) : Rotation α :=
  ⟨b.s * a.x + b.x * a.s + b.y * a.z - b.z * a.y,
   b.s * a.y - b.x * a.z + b.y * a.s + b.z * a.x,
   b.s * a.z + b.x * a.y - b.y * a.x + b.z * a.s,
   b.s * a.s - b.x * a.x - b.y * a.y - b.z * a.z⟩

def conjugate [Neg α] (a : Rotation α) : Rotation α := ⟨-a.x, -a.y, -a.z, a.s⟩

def add [Add α] (a b : Rotation α) : Rotation α := ⟨a.x + b.x, a.y + b.y, a.z + b.z, a.s + b.s⟩

def sub [Sub α] (a b : Rotation α) : Rotation α := ⟨a.x - b.x, a.y - b.y, a.z - b.z, a.s - b.s⟩

def neg [Neg α] (a : Rotation α) : Rotation α := ⟨-a.x, -a.y, -a.z, -a.s⟩

end Rotation

namespace Vec3

/-- `v` rotated by `r`: the vector part of the product of the conjugate of `r`, `v` and `r`. -/
def rotate [OfNat α 0] [Add α] [Sub α] [Mul α] [Neg α] (v : Vec3 α) (r : Rotation α) : Vec3 α :=
  let image := (r.conjugate.mul ⟨v.x, v.y, v.z, 0⟩).mul r
  ⟨image.x, image.y, image.z⟩

def magnitude (v : Vec3 Float) : Float := (v.dot v).sqrt

/-- The vector of length one in the same direction; a vector of length zero gives the zero vector. -/
def normalize (v : Vec3 Float) : Vec3 Float :=
  let length := v.magnitude
  if length == 0.0 then zero else v.scale (1.0 / length)

end Vec3

end WorldScript
