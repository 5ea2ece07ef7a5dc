import WorldScript.Term

/-! # Statements

A statement is kept as it is written.  The body of a construct is a list of statements in a scope of
its own, whether it has braces or is a single statement.  Code that closes a construct belongs to the
line of the token after it.
-/

namespace WorldScript

mutual

inductive Stmt where
  | empty
  | block (body : List Stmt)
  /-- A local variable. -/
  | declare (ty : Ty) (name : String) (init : Option Term) (line : Nat)
  | expr (term : Term) (line : Nat)
  | ret (value : Option Term) (line : Nat)
  | changeState (name : String) (line : Nat)
  | jump (name : String) (line : Nat)
  | breakLoop (line : Nat)
  | continueLoop (line : Nat)
  | branch (condition : Term) (body : List Stmt) (tail : Tail) (line : Nat)
  | whileLoop (condition : Term) (body : List Stmt) (line after : Nat)
  | forLoop (init : List Term) (condition : Option Term) (step : List Term) (body : List Stmt)
      (line after : Nat)
  /-- A loop that tests its condition, on line `test`, after its body. -/
  | doLoop (body : List Stmt) (condition : Term) (line test : Nat)
  /-- Where a statement is missing or malformed; nothing comes after it. -/
  | broken (problem : Diagnostic)

inductive Tail where
  | done (after : Nat)
  | elseIf (condition : Term) (body : List Stmt) (tail : Tail) (line : Nat)
  | elseArm (body : List Stmt) (line after : Nat)

end

end WorldScript
