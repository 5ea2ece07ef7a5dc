import WorldScript.Term
import WorldScript.Token.Bracket

/-! # Terms of tokens

A term is a chain of operands with operators between them.  The chain is grouped by the tiers of
operators from the tightest to the loosest.  What stands in brackets is read on its own; between angle
brackets, a `>` outside of other brackets closes them.
-/

namespace WorldScript.Grammar

inductive Join where
  | value (op : BinaryOp)
  | store (assignment : Assignment)
  /-- A symbol of the table that no operator belongs to. -/
  | formless (symbol : Symbol)

namespace Join

def ofSymbol? (s : Symbol) : Option Join :=
  match Assignment.ofSymbol? s with
  | some a => some (.store a)
  | none => (BinaryOp.ofSymbol? s).map .value

def ofSymbol (s : Symbol) : Join := (ofSymbol? s).getD (.formless s)

def text : Join → String
  | .value op => op.text
  | .store a => a.text
  | .formless s => s.text

def term (j : Join) (line : Nat) (left right : Term) : Term :=
  match j with
  | .value op => .binary op left right line
  | .store a => .assign a left right line
  | .formless s => .brokenAfter (.list [left, right] line) (.defect line (.noBinaryForm s))

end Join

structure Link where
  join : Join
  line : Nat
  operand : Term

def Link.isOf (l : Link) (tier : Tier) : Bool := tier.contains l.join.text .between

def groupLeft (tier : Tier) (first : Term) : List Link → Term × List Link
  | [] => (first, [])
  | l :: rest =>
    if l.isOf tier then groupLeft tier (l.join.term l.line first l.operand) rest
    else
      let (second, others) := groupLeft tier l.operand rest
      (first, ⟨l.join, l.line, second⟩ :: others)

def groupRight (tier : Tier) (first : Term) : List Link → Term × List Link
  | [] => (first, [])
  | l :: rest =>
    let (second, others) := groupRight tier l.operand rest
    if l.isOf tier then (l.join.term l.line first second, others)
    else (first, ⟨l.join, l.line, second⟩ :: others)

def groupTier (tier : Tier) (first : Term) (rest : List Link) : Term × List Link :=
  if tier.groupsRight then groupRight tier first rest else groupLeft tier first rest

def groupTiers (first : Term) (rest : List Link) : List Tier → Term × List Link
  | [] => (first, rest)
  | tier :: looser =>
    let (next, others) := groupTier tier first rest
    groupTiers next others looser

def ofChain (first : Term) (rest : List Link) : Term :=
  (groupTiers first rest (Tier.table.drop Tier.firstBinary)).1

inductive Lead where
  | unary (op : UnaryOp)
  | step (step : Step)
  /-- A symbol of the table that no operator belongs to. -/
  | formless (symbol : Symbol)

namespace Lead

def ofSymbol (s : Symbol) : Lead :=
  match Step.ofSymbol? s, UnaryOp.ofSymbol? s with
  | some k, _ => .step k
  | none, some op => .unary op
  | none, none => .formless s

def term (l : Lead) (line : Nat) (operand : Term) : Term :=
  match l with
  | .unary op => .unary op operand line
  | .step s => .step s true operand line
  | .formless s => .brokenAfter operand (.defect line (.noPrefixForm s))

end Lead

def lead? (t : Token) : Option Lead :=
  match t.kind with
  | .operator s => if s.isBefore then some (.ofSymbol s) else none
  | _ => none

def join? (angle : Bool) (t : Token) : Option Join :=
  match t.kind with
  | .operator s => if !(angle && s = .greater) && s.isBetween then some (.ofSymbol s) else none
  | _ => none

def suffixes (base : Term) : List Token → Term × List Token
  | [] => (base, [])
  | t :: rest =>
    match t.kind with
    | .operator .increment => suffixes (.step .increment false base t.line) rest
    | .operator .decrement => suffixes (.step .decrement false base t.line) rest
    | .operator .dot =>
      match rest with
      | n :: more =>
        match n.identifier? with
        | some name => suffixes (.member base name t.line) more
        | none => (.brokenAfter base (.syntactic t.line .expectedMemberName), [])
      | [] => (.brokenAfter base (.syntactic t.line .expectedMemberName), [])
    | _ => (base, t :: rest)

theorem suffixes_length (base : Term) (ts : List Token) : (suffixes base ts).2.length ≤ ts.length := by
  fun_induction suffixes base ts <;> grind

def castPrefix? : List Token → Option (Ty × Nat × List Token)
  | o :: t :: c :: rest =>
    if o.is .openParen && c.is .closeParen then t.ty?.map fun ty => (ty, o.line, rest) else none
  | _ => none

theorem castPrefix?_length {ts rest : List Token} {ty : Ty} {line : Nat}
    (h : castPrefix? ts = some (ty, line, rest)) : rest.length < ts.length := by
  unfold castPrefix? at h
  split at h
  · split at h
    · simp only [Option.map_eq_some_iff, Prod.mk.injEq] at h
      obtain ⟨_, _, _, _, rfl⟩ := h
      simp only [List.length_cons]
      omega
    · simp at h
  · simp at h

def literal? (t : Token) : Option Value :=
  match t.kind with
  | .integer n => some (.integer n)
  | .float x => some (.float x)
  | .string s => some (.string s)
  | _ => none

def negativeNumber? : List Token → Option (Term × List Token)
  | m :: n :: rest =>
    if m.isSymbol .minus then
      match n.kind with
      | .integer i => some (.literal (.integer (-i)) m.line, rest)
      | .float x => some (.literal (.float (-x)) m.line, rest)
      | _ => none
    else none
  | _ => none

theorem negativeNumber?_length {ts rest : List Token} {t : Term}
    (h : negativeNumber? ts = some (t, rest)) : rest.length ≤ ts.length := by
  unfold negativeNumber? at h
  grind

structure Parsed (α : Type) (ts : List Token) where
  value : α
  rest : List Token
  rest_le : rest.length ≤ ts.length

def Parsed.atStart {α : Type} {ts : List Token} (value : α) : Parsed α ts := ⟨value, ts, Nat.le_refl _⟩

def Parsed.atEnd {α : Type} {ts : List Token} (value : α) : Parsed α ts := ⟨value, [], Nat.zero_le _⟩

def Parsed.ofHead {α : Type} {t : Token} {rest : List Token} (value : α) : Parsed α (t :: rest) :=
  ⟨value, rest, Nat.le_succ _⟩

def Parsed.broken (ts : List Token) (problem : Diagnostic) : Parsed Term ts := .atEnd (.broken problem)

mutual

/-- The chain of operands at the start of a run.  `last` is the line of the last token of the run, and
`angle` says whether the run stands in angle brackets. -/
def expression (last : Nat) (angle : Bool) (ts : List Token) : Parsed Term ts :=
  let first := operand last angle ts
  have := first.rest_le
  let links := chain last angle first.rest
  have := links.rest_le
  ⟨ofChain first.value links.value, links.rest, by omega⟩
termination_by 7 * ts.length + 5
decreasing_by all_goals grind

def chain (last : Nat) (angle : Bool) (ts : List Token) : Parsed (List Link) ts :=
  match ts with
  | [] => ⟨[], [], Nat.le_refl _⟩
  | t :: rest =>
    match join? angle t with
    | none => ⟨[], t :: rest, Nat.le_refl _⟩
    | some join =>
      let next := operand last angle rest
      have := next.rest_le
      let others := chain last angle next.rest
      have := others.rest_le
      ⟨⟨join, t.line, next.value⟩ :: others.value, others.rest, by simp only [List.length_cons]; omega⟩
termination_by 7 * ts.length + 4
decreasing_by all_goals grind

def operand (last : Nat) (angle : Bool) (ts : List Token) : Parsed Term ts :=
  match ts with
  | [] => atom last []
  | t :: rest =>
    match lead? t with
    | some lead =>
      let inner := operand last angle rest
      have := inner.rest_le
      ⟨lead.term t.line inner.value, inner.rest, by simp only [List.length_cons]; omega⟩
    | none =>
      let base := primary last (t :: rest)
      have := base.rest_le
      have := suffixes_length base.value base.rest
      ⟨(suffixes base.value base.rest).1, (suffixes base.value base.rest).2, by omega⟩
termination_by 7 * ts.length + 3
decreasing_by all_goals grind

def primary (last : Nat) (ts : List Token) : Parsed Term ts :=
  match ts with
  | [] => atom last []
  | t :: rest =>
    if t.isSymbol .at then
      match rest with
      | n :: more =>
        match n.identifier? with
        | some name => ⟨.label name t.line, more, by simp only [List.length_cons]; omega⟩
        | none => .broken _ (.syntactic t.line .expectedLabelName)
      | [] => .broken _ (.syntactic t.line .expectedLabelName)
    else casted last (t :: rest)
termination_by 7 * ts.length + 2
decreasing_by all_goals grind

/-- A cast or an atom.  What is cast is another cast, a number with a minus sign, or an atom. -/
def casted (last : Nat) (ts : List Token) : Parsed Term ts :=
  match h : castPrefix? ts with
  | none => atom last ts
  | some (target, line, rest) =>
    have hrest := castPrefix?_length h
    match hn : negativeNumber? rest with
    | some (literal, after) =>
      have := negativeNumber?_length hn
      ⟨.cast target literal line, after, by omega⟩
    | none =>
      let inner := casted last rest
      have := inner.rest_le
      ⟨.cast target inner.value line, inner.rest, by omega⟩
termination_by 7 * ts.length + 1
decreasing_by all_goals grind

def atom (last : Nat) (ts : List Token) : Parsed Term ts :=
  match ts with
  | [] => .broken _ (.syntactic last .expectedOperandAtEnd)
  | t :: rest =>
    match literal? t with
    | some value => .ofHead (.literal value t.line)
    | none =>
      match t.kind with
      | .identifier name =>
        match rest with
        | [] => .ofHead (.name name t.line)
        | o :: more =>
          if o.is .openParen then
            match h : Bracket.inside o more with
            | .error d => .broken _ d
            | .ok (inner, after) =>
              have := Bracket.inside_length h
              ⟨.call name (items (lastLine last inner) inner) t.line, after, by
                simp only [List.length_cons]; omega⟩
          else .ofHead (.name name t.line)
      | .openParen =>
        match h : Bracket.inside t rest with
        | .error d => .broken _ d
        | .ok (inner, after) =>
          have := Bracket.inside_length h
          match inner with
          | [] => .broken _ (.syntactic t.line .expectedInParentheses)
          | i :: is =>
            ⟨whole (lastLine last (i :: is)) (i :: is), after, by simp only [List.length_cons]; omega⟩
      | .openBracket =>
        match h : Bracket.inside t rest with
        | .error d => .broken _ d
        | .ok (inner, after) =>
          have := Bracket.inside_length h
          ⟨.list (items (lastLine last inner) inner) t.line, after, by simp only [List.length_cons]; omega⟩
      | .operator .less =>
        let parts := components last t.line rest
        have := parts.rest_le
        ⟨.angle parts.value t.line, parts.rest, by simp only [List.length_cons]; omega⟩
      | _ => .broken _ (.syntactic t.line (.expectedOperand t))
termination_by 7 * ts.length + 0
decreasing_by all_goals grind

def components (last opening : Nat) (ts : List Token) : Parsed (List Term) ts :=
  let first := expression last true ts
  have hle := first.rest_le
  match hr : first.rest with
  | [] => .atEnd [first.value, .broken (.syntactic opening .unclosedVector)]
  | t :: more =>
    have hmore : more.length < ts.length := by rw [hr] at hle; simp only [List.length_cons] at hle; omega
    if t.is .comma then
      let others := components last opening more
      have := others.rest_le
      ⟨first.value :: others.value, others.rest, by omega⟩
    else if t.isSymbol .greater then ⟨[first.value], more, by omega⟩
    else .atEnd [first.value, .broken (.syntactic t.line (.unexpectedInVector t))]
termination_by 7 * ts.length + 6
decreasing_by all_goals grind

def whole (last : Nat) (ts : List Token) : Term :=
  let first := expression last false ts
  match first.rest with
  | [] => first.value
  | t :: _ => .brokenAfter first.value (.syntactic t.line (.unexpectedInExpression t))
termination_by 7 * ts.length + 6
decreasing_by all_goals grind

def items (last : Nat) (ts : List Token) : List Term :=
  match ts with
  | [] => []
  | t :: rest =>
    let first := expression last false (t :: rest)
    have hle := first.rest_le
    match hr : first.rest with
    | [] => [first.value]
    | s :: more =>
      have hmore : more.length < (t :: rest).length := by
        rw [hr] at hle; simp only [List.length_cons] at hle ⊢; omega
      if s.is .comma then
        match more with
        | [] => [first.value, .broken (.syntactic s.line .expectedExpressionAfterComma)]
        | m :: ms => first.value :: items last (m :: ms)
      else [first.value, .broken (.syntactic s.line (.unexpectedInList s))]
termination_by 7 * ts.length + 6
decreasing_by all_goals grind

end

end WorldScript.Grammar

namespace WorldScript.Term

def ofTokens (line : Nat) (ts : List Token) : Term :=
  match ts with
  | [] => .broken (.syntactic line .expectedExpression)
  | t :: rest => Grammar.whole (lastLine line (t :: rest)) (t :: rest)

def listOfTokens (line : Nat) (ts : List Token) : List Term :=
  Grammar.items (lastLine line ts) ts

end WorldScript.Term
