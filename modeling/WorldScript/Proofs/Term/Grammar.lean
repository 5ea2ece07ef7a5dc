import WorldScript.Term.Parse

/-! # The grammar of terms

What it means that tokens spell a term.  There is a level for each tier of operators.  A term of a level
has operators of its tier outside of operators of tighter tiers, and what stands in brackets is a run of
its own.  A run in angle brackets has no `>` between its operands.
-/

namespace WorldScript.Term

inductive Phrase where
  /-- A literal, a name, a call, or something in brackets. -/
  | atom (t : Term)
  /-- A term with no operator looser than the tier with index `n`. -/
  | level (n : Nat) (t : Term)
  /-- What can stand after a type in parentheses. -/
  | castable (t : Term)
  /-- One or more terms with commas between them. -/
  | several (ts : List Term)
  /-- Terms with commas between them, or nothing. -/
  | items (ts : List Term)

structure IsOperator (t : Token) (s : Symbol) (position : Position) (n : Nat) : Prop where
  kind : t.kind = .operator s
  tier : Tier.indexOf? s.text position = some n

open Grammar in
inductive Derives : Bool → List Token → Phrase → Prop
  | literal {angle : Bool} {t : Token} {v : Value} (ht : literal? t = some v) :
      Derives angle [t] (.atom (.literal v t.line))
  | name {angle : Bool} {t : Token} {name : String} (ht : t.kind = .identifier name) :
      Derives angle [t] (.atom (.name name t.line))
  | call {angle : Bool} {t o c : Token} {ts : List Token} {name : String} {args : List Term}
      (ht : t.kind = .identifier name) (ho : o.kind = .openParen) (hts : Derives false ts (.items args))
      (hc : c.kind = .closeParen) : Derives angle (t :: o :: (ts ++ [c])) (.atom (.call name args t.line))
  | parenthesized {angle : Bool} {o c : Token} {ts : List Token} {t : Term} (ho : o.kind = .openParen)
      (hts : Derives false ts (.level Tier.loosest t)) (hc : c.kind = .closeParen) :
      Derives angle (o :: (ts ++ [c])) (.atom t)
  | list {angle : Bool} {o c : Token} {ts : List Token} {args : List Term} (ho : o.kind = .openBracket)
      (hts : Derives false ts (.items args)) (hc : c.kind = .closeBracket) :
      Derives angle (o :: (ts ++ [c])) (.atom (.list args o.line))
  | angle {angle : Bool} {o c : Token} {ts : List Token} {parts : List Term} (ho : o.kind = .operator .less)
      (hts : Derives true ts (.several parts)) (hc : c.kind = .operator .greater) :
      Derives angle (o :: (ts ++ [c])) (.atom (.angle parts o.line))
  -- the tiers of casts, of labels, of operators after an operand and of operators before one
  | uncast {angle : Bool} {ts : List Token} {t : Term} (h : Derives angle ts (.atom t)) :
      Derives angle ts (.level 0 t)
  | cast {angle : Bool} {o n c : Token} {ts : List Token} {target : Ty} {t : Term} (ho : o.kind = .openParen)
      (hn : n.kind = .typeName target) (hc : c.kind = .closeParen) (h : Derives angle ts (.castable t)) :
      Derives angle (o :: n :: c :: ts) (.level 0 (.cast target t o.line))
  | castable {angle : Bool} {ts : List Token} {t : Term} (h : Derives angle ts (.level 0 t)) :
      Derives angle ts (.castable t)
  | negativeInteger {angle : Bool} {m n : Token} {i : Int32} (hm : m.kind = .operator .minus)
      (hn : n.kind = .integer i) : Derives angle [m, n] (.castable (.literal (.integer (-i)) m.line))
  | negativeFloat {angle : Bool} {m n : Token} {x : Float} (hm : m.kind = .operator .minus)
      (hn : n.kind = .float x) : Derives angle [m, n] (.castable (.literal (.float (-x)) m.line))
  | label {angle : Bool} {o n : Token} {s : Symbol} {name : String} (ho : IsOperator o s .before 1)
      (hn : n.kind = .identifier name) : Derives angle [o, n] (.level 1 (.label name o.line))
  | stepAfter {angle : Bool} {o : Token} {ts : List Token} {s : Symbol} {step : Step} {t : Term}
      (h : Derives angle ts (.level 2 t)) (ho : IsOperator o s .after 2) (hs : Step.ofSymbol? s = some step) :
      Derives angle (ts ++ [o]) (.level 2 (.step step false t o.line))
  | member {angle : Bool} {o n : Token} {ts : List Token} {s : Symbol} {name : String} {t : Term}
      (h : Derives angle ts (.level 2 t)) (ho : IsOperator o s .between 2) (hn : n.kind = .identifier name) :
      Derives angle (ts ++ [o, n]) (.level 2 (.member t name o.line))
  | unary {angle : Bool} {o : Token} {ts : List Token} {s : Symbol} {op : UnaryOp} {t : Term}
      (ho : IsOperator o s .before 3) (hs : UnaryOp.ofSymbol? s = some op)
        (h : Derives angle ts (.level 3 t)) :
      Derives angle (o :: ts) (.level 3 (.unary op t o.line))
  | stepBefore {angle : Bool} {o : Token} {ts : List Token} {s : Symbol} {step : Step} {t : Term}
      (ho : IsOperator o s .before 3) (hs : Step.ofSymbol? s = some step)
        (h : Derives angle ts (.level 3 t)) :
      Derives angle (o :: ts) (.level 3 (.step step true t o.line))
  | looser {angle : Bool} {n : Nat} {ts : List Token} {t : Term} (hn : n + 1 < Tier.table.length)
      (h : Derives angle ts (.level n t)) : Derives angle ts (.level (n + 1) t)
  -- the tiers of operators between two operands
  | leftmost {angle : Bool} {n : Nat} {tier : Tier} {o : Token} {ts us : List Token} {s : Symbol} {j : Join}
      {l r : Term} (ht : Tier.table[n + 1]? = some tier) (hg : tier.groupsRight = false)
      (hl : Derives angle ts (.level (n + 1) l)) (ho : IsOperator o s .between (n + 1))
      (hj : Join.ofSymbol? s = some j) (ha : angle = true → s ≠ .greater)
        (hr : Derives angle us (.level n r)) :
      Derives angle (ts ++ o :: us) (.level (n + 1) (j.term o.line l r))
  | rightmost {angle : Bool} {n : Nat} {tier : Tier} {o : Token} {ts us : List Token} {s : Symbol} {j : Join}
      {l r : Term} (ht : Tier.table[n + 1]? = some tier) (hg : tier.groupsRight = true)
      (hl : Derives angle ts (.level n l)) (ho : IsOperator o s .between (n + 1))
      (hj : Join.ofSymbol? s = some j) (ha : angle = true → s ≠ .greater)
      (hr : Derives angle us (.level (n + 1) r)) :
      Derives angle (ts ++ o :: us) (.level (n + 1) (j.term o.line l r))
  | one {angle : Bool} {ts : List Token} {t : Term} (h : Derives angle ts (.level Tier.loosest t)) :
      Derives angle ts (.several [t])
  | more {angle : Bool} {c : Token} {ts us : List Token} {t : Term} {others : List Term}
      (h : Derives angle ts (.level Tier.loosest t)) (hc : c.kind = .comma)
      (hus : Derives angle us (.several others)) : Derives angle (ts ++ c :: us) (.several (t :: others))
  | noItems {angle : Bool} : Derives angle [] (.items [])
  | someItems {angle : Bool} {ts : List Token} {args : List Term} (h : Derives angle ts (.several args)) :
      Derives angle ts (.items args)

def Spelled (ts : List Token) (t : Term) : Prop := Derives false ts (.level Tier.loosest t)

end WorldScript.Term
