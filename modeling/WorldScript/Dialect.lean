/-! # Dialects

A capability applies to a set of dialects; a compilation sees a set of dialects.
-/

namespace WorldScript

inductive Dialect where
  /-- The base language. -/
  | lsl
  /-- The functions of the simulator. -/
  | ossl
  /-- The functions of the extended engine. -/
  | xmr
deriving DecidableEq

namespace Dialect

def all : List Dialect := [.lsl, .ossl, .xmr]

def name : Dialect → String
  | .lsl => "lsl"
  | .ossl => "ossl"
  | .xmr => "xmr"

def ofName? (name : String) : Option Dialect :=
  let lowered := name.map Char.toLower
  all.find? fun d => d.name = lowered

end Dialect

structure DialectSet where
  lsl : Bool
  ossl : Bool
  xmr : Bool
deriving DecidableEq

namespace DialectSet

def none : DialectSet := ⟨false, false, false⟩

def all : DialectSet := ⟨true, true, true⟩

def contains (s : DialectSet) : Dialect → Bool
  | .lsl => s.lsl
  | .ossl => s.ossl
  | .xmr => s.xmr

def insert (s : DialectSet) : Dialect → DialectSet
  | .lsl => { s with lsl := true }
  | .ossl => { s with ossl := true }
  | .xmr => { s with xmr := true }

def only (d : Dialect) : DialectSet := none.insert d

def ofList (dialects : List Dialect) : DialectSet := dialects.foldl insert none

def union (a b : DialectSet) : DialectSet := ⟨a.lsl || b.lsl, a.ossl || b.ossl, a.xmr || b.xmr⟩

def intersects (a b : DialectSet) : Bool := a.lsl && b.lsl || a.ossl && b.ossl || a.xmr && b.xmr

def isEmpty (s : DialectSet) : Bool := !(s.lsl || s.ossl || s.xmr)

def toList (s : DialectSet) : List Dialect := Dialect.all.filter s.contains

def text (s : DialectSet) : String := "|".intercalate (s.toList.map Dialect.name)

end DialectSet

end WorldScript
