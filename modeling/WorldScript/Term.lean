import WorldScript.Diagnostic
import WorldScript.Expr

/-! # Terms

A term is an expression as it is written: its structure is known, but not what its names stand for.
Where the structure breaks off, the term has a broken leaf, and nothing comes after it.
-/

namespace WorldScript

inductive Term where
  | literal (value : Value) (line : Nat)
  | name (name : String) (line : Nat)
  | call (name : String) (args : List Term) (line : Nat)
  | list (items : List Term) (line : Nat)
  /-- Components in angle brackets. -/
  | angle (parts : List Term) (line : Nat)
  | cast (target : Ty) (operand : Term) (line : Nat)
  | label (name : String) (line : Nat)
  | unary (op : UnaryOp) (operand : Term) (line : Nat)
  /-- A step before its operand when `first` holds, else after it. -/
  | step (step : Step) (first : Bool) (operand : Term) (line : Nat)
  | member (base : Term) (name : String) (line : Nat)
  | binary (op : BinaryOp) (left right : Term) (line : Nat)
  | assign (assignment : Assignment) (target value : Term) (line : Nat)
  /-- Where a term is missing or malformed. -/
  | broken (problem : Diagnostic)
  /-- A term after which something is missing or malformed. -/
  | brokenAfter (before : Term) (problem : Diagnostic)

end WorldScript
