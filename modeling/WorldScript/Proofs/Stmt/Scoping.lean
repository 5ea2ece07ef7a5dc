import WorldScript.Proofs.Expr.Accesses
import WorldScript.Stmt

/-! # Lexical scoping

What a name in a body stands for is plain from the text: the latest binding of the name that is in scope,
else the variable of the script.  A declaration is in scope from after its initializer to the end of the
block or construct body it stands in, and has the slot after those of all declarations before it.
-/

namespace WorldScript

/-- The bindings in scope: names with the slots of their declarations, the latest first, so that those of
inner blocks come before those around them. -/
abbrev Bindings := List (String × Nat)

def lexical (globals : List Param) (bound : Bindings) (name : String) : Option Var :=
  ((bound.lookup name).map Var.loc).or ((globals.findIdx? (·.name = name)).map Var.glob)

mutual

/-- The locals that a statement declares, in the order of the text, with their slots.  `slot` is the number of
locals before. -/
def Stmt.declared (slot : Nat) : Stmt → List (Param × Nat)
  | .declare ty name _ _ => [(⟨name, ty⟩, slot)]
  | .block body | .whileLoop _ body _ _ | .forLoop _ _ _ body _ _ | .doLoop body _ _ _ =>
    Stmt.allDeclared slot body
  | .branch _ body tail _ =>
    Stmt.allDeclared slot body ++ tail.declared (slot + (Stmt.allDeclared slot body).length)
  | _ => []

def Stmt.allDeclared (slot : Nat) : List Stmt → List (Param × Nat)
  | [] => []
  | s :: rest => s.declared slot ++ Stmt.allDeclared (slot + (s.declared slot).length) rest

def Tail.declared (slot : Nat) : Tail → List (Param × Nat)
  | .done _ => []
  | .elseIf _ body tail _ =>
    Stmt.allDeclared slot body ++ tail.declared (slot + (Stmt.allDeclared slot body).length)
  | .elseArm body _ _ => Stmt.allDeclared slot body

end

/-- The bindings in scope after a statement.  What is declared inside of one is in scope there only. -/
def Stmt.binds (slot : Nat) (bound : Bindings) : Stmt → Bindings
  | .declare _ name _ _ => (name, slot) :: bound
  | _ => bound

mutual

def Stmt.accesses (globals : List Param) (bound : Bindings) (slot : Nat) : Stmt → List Var
  | .declare _ _ init _ => Term.allAccesses (lexical globals bound) init.toList ++ [.loc slot]
  | .expr t _ => t.accesses (lexical globals bound)
  | .ret value _ => Term.allAccesses (lexical globals bound) value.toList
  | .block body => Stmt.allAccesses globals bound slot body
  | .branch test body tail _ =>
    test.accesses (lexical globals bound) ++ Stmt.allAccesses globals bound slot body ++
      tail.accesses globals bound (slot + (Stmt.allDeclared slot body).length)
  | .whileLoop test body _ _ =>
    test.accesses (lexical globals bound) ++ Stmt.allAccesses globals bound slot body
  | .forLoop init test step body _ _ =>
    Term.allAccesses (lexical globals bound) init ++ Term.allAccesses (lexical globals bound) test.toList ++
      Stmt.allAccesses globals bound slot body ++ Term.allAccesses (lexical globals bound) step
  | .doLoop body test _ _ =>
    Stmt.allAccesses globals bound slot body ++ test.accesses (lexical globals bound)
  | _ => []

def Stmt.allAccesses (globals : List Param) (bound : Bindings) (slot : Nat) : List Stmt → List Var
  | [] => []
  | s :: rest => s.accesses globals bound slot ++
      Stmt.allAccesses globals (s.binds slot bound) (slot + (s.declared slot).length) rest

def Tail.accesses (globals : List Param) (bound : Bindings) (slot : Nat) : Tail → List Var
  | .done _ => []
  | .elseIf test body tail _ =>
    test.accesses (lexical globals bound) ++ Stmt.allAccesses globals bound slot body ++
      tail.accesses globals bound (slot + (Stmt.allDeclared slot body).length)
  | .elseArm body _ _ => Stmt.allAccesses globals bound slot body

end

def boundParams (params : List Param) : Bindings := (params.zipIdx.map fun p => (p.1.name, p.2)).reverse

mutual

theorem Stmt.declared_zipIdx (slot : Nat) (s : Stmt) :
    s.declared slot = ((s.declared slot).map Prod.fst).zipIdx slot := by
  cases s with
  | declare ty name init line => rfl
  | block body => exact Stmt.allDeclared_zipIdx slot body
  | whileLoop test body line after => exact Stmt.allDeclared_zipIdx slot body
  | forLoop init test step body line after => exact Stmt.allDeclared_zipIdx slot body
  | doLoop body test line last => exact Stmt.allDeclared_zipIdx slot body
  | branch test body tail line =>
    rw [Stmt.declared, List.map_append, List.zipIdx_append, List.length_map,
      ← Stmt.allDeclared_zipIdx slot body,
      ← Tail.declared_zipIdx _ tail]
  | empty | expr | ret | changeState | jump | breakLoop | continueLoop | broken => rfl

theorem Stmt.allDeclared_zipIdx (slot : Nat) (body : List Stmt) :
    Stmt.allDeclared slot body = ((Stmt.allDeclared slot body).map Prod.fst).zipIdx slot := by
  cases body with
  | nil => rfl
  | cons s rest =>
    rw [Stmt.allDeclared, List.map_append, List.zipIdx_append, List.length_map, ← Stmt.declared_zipIdx slot s,
      ← Stmt.allDeclared_zipIdx _ rest]

theorem Tail.declared_zipIdx (slot : Nat) (tail : Tail) :
    tail.declared slot = ((tail.declared slot).map Prod.fst).zipIdx slot := by
  cases tail with
  | done after => rfl
  | elseIf test body tail line =>
    rw [Tail.declared, List.map_append, List.zipIdx_append, List.length_map,
      ← Stmt.allDeclared_zipIdx slot body,
      ← Tail.declared_zipIdx _ tail]
  | elseArm body line after => exact Stmt.allDeclared_zipIdx slot body

end

end WorldScript
