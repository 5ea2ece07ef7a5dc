import WorldScript.Term.Parse

/-! # Equations of reading

What is read off the start of a run, as one pair of a value and the tokens that follow.
-/

namespace WorldScript.Grammar

def Parsed.read {α : Type} {ts : List Token} (p : Parsed α ts) : α × List Token := (p.value, p.rest)

variable {last : Nat} {angle : Bool} {t : Token} {ts rest : List Token}

theorem expression_read : (expression last angle ts).read =
    (ofChain (operand last angle ts).value (chain last angle (operand last angle ts).rest).value,
      (chain last angle (operand last angle ts).rest).rest) := by
  rw [expression, Parsed.read]

theorem chain_nil : (chain last angle []).read = ([], []) := by
  rw [chain]
  rfl

theorem chain_stop (h : join? angle t = none) : (chain last angle (t :: rest)).read = ([], t :: rest) := by
  rw [chain]
  split
  · rfl
  · simp_all

theorem chain_link {j : Join} (h : join? angle t = some j) : (chain last angle (t :: rest)).read =
    (⟨j, t.line, (operand last angle rest).value⟩ :: (chain last angle (operand last angle rest).rest).value,
      (chain last angle (operand last angle rest).rest).rest) := by
  rw [chain]
  split
  · simp_all
  · simp_all [Parsed.read]

theorem operand_nil :
    (operand last angle []).read = (.broken (.syntactic last .expectedOperandAtEnd), []) := by
  rw [operand, atom]
  rfl

theorem operand_lead {lead : Lead} (h : lead? t = some lead) : (operand last angle (t :: rest)).read =
    (lead.term t.line (operand last angle rest).value, (operand last angle rest).rest) := by
  rw [operand]
  split <;> simp_all [Parsed.read]

theorem operand_base (h : lead? t = none) : (operand last angle (t :: rest)).read =
    suffixes (primary last (t :: rest)).value (primary last (t :: rest)).rest := by
  rw [operand]
  split <;> simp_all [Parsed.read]

theorem primary_nil : (primary last []).read = (.broken (.syntactic last .expectedOperandAtEnd), []) := by
  rw [primary, atom]
  rfl

theorem primary_label {n : Token} {name : String} (h : t.isSymbol .at = true)
    (hn : n.identifier? = some name) : (primary last (t :: n :: rest)).read = (.label name t.line, rest) := by
  rw [primary.eq_def]
  simp [h, hn, Parsed.read]

theorem primary_unlabelled (h : t.isSymbol .at = true)
    (hn : ∀ n more, rest = n :: more → n.identifier? = none) :
    (primary last (t :: rest)).read = (.broken (.syntactic t.line .expectedLabelName), []) := by
  rw [primary.eq_def]
  cases rest with
  | nil => simp [h, Parsed.read, Parsed.broken, Parsed.atEnd]
  | cons n more => simp [h, hn n more rfl, Parsed.read, Parsed.broken, Parsed.atEnd]

theorem primary_other (h : t.isSymbol .at = false) :
    (primary last (t :: rest)).read = (casted last (t :: rest)).read := by
  rw [primary.eq_def]
  simp [h]

theorem casted_atom (h : castPrefix? ts = none) : (casted last ts).read = (atom last ts).read := by
  rw [casted]
  split <;> simp_all

theorem casted_negative {target : Ty} {line : Nat} {literal : Term} {after : List Token}
    (h : castPrefix? ts = some (target, line, rest)) (hn : negativeNumber? rest = some (literal, after)) :
    (casted last ts).read = (.cast target literal line, after) := by
  rw [casted]
  split
  case h_1 hnone => simp [h] at hnone
  case h_2 heq =>
    rw [h] at heq
    cases heq
    split <;> simp_all [Parsed.read]

theorem casted_cast {target : Ty} {line : Nat} (h : castPrefix? ts = some (target, line, rest))
    (hn : negativeNumber? rest = none) :
    (casted last ts).read = (.cast target (casted last rest).value line, (casted last rest).rest) := by
  rw [casted]
  split
  case h_1 hnone => simp [h] at hnone
  case h_2 heq =>
    rw [h] at heq
    cases heq
    split <;> simp_all [Parsed.read]

theorem atom_nil : (atom last []).read = (.broken (.syntactic last .expectedOperandAtEnd), []) := by
  rw [atom]
  rfl

theorem atom_literal {v : Value} (h : literal? t = some v) : (atom last (t :: rest)).read =
    (.literal v t.line, rest) := by
  rw [atom]
  split <;> simp_all [Parsed.read, Parsed.ofHead]

theorem atom_name {name : String} (h : t.kind = .identifier name)
    (hrest : ∀ o more, rest = o :: more → o.kind ≠ .openParen) :
    (atom last (t :: rest)).read = (.name name t.line, rest) := by
  have hl : literal? t = none := by simp [literal?, h]
  rw [atom, hl]
  simp only [h]
  cases rest with
  | nil => rfl
  | cons o more =>
    have ho : o.is .openParen = false := by simp [Token.is, hrest o more rfl]
    simp [ho, Parsed.read, Parsed.ofHead]

theorem atom_call {name : String} {o : Token} (h : t.kind = .identifier name) (ho : o.kind = .openParen) :
    (atom last (t :: o :: rest)).read = match Bracket.inside o rest with
      | .error d => (.broken d, [])
      | .ok (inner, after) => (.call name (items (lastLine last inner) inner) t.line, after) := by
  have hl : literal? t = none := by simp [literal?, h]
  have hparen : o.is .openParen = true := by simp [Token.is, ho]
  rw [atom, hl]
  simp only [h, hparen, if_true]
  split <;> simp_all [Parsed.read, Parsed.broken, Parsed.atEnd]

theorem atom_paren (h : t.kind = .openParen) : (atom last (t :: rest)).read =
    match Bracket.inside t rest with
    | .error d => (.broken d, [])
    | .ok ([], _) => (.broken (.syntactic t.line .expectedInParentheses), [])
    | .ok (i :: is, after) => (whole (lastLine last (i :: is)) (i :: is), after) := by
  have hl : literal? t = none := by simp [literal?, h]
  rw [atom, hl]
  simp only [h]
  split
  case h_1 d heq =>
    rw [heq]
    rfl
  case h_2 inner after heq =>
    cases inner <;> simp [heq, Parsed.read, Parsed.broken, Parsed.atEnd]

theorem atom_bracket (h : t.kind = .openBracket) : (atom last (t :: rest)).read =
    match Bracket.inside t rest with
    | .error d => (.broken d, [])
    | .ok (inner, after) => (.list (items (lastLine last inner) inner) t.line, after) := by
  have hl : literal? t = none := by simp [literal?, h]
  rw [atom, hl]
  simp only [h]
  split <;> simp_all [Parsed.read, Parsed.broken, Parsed.atEnd]

theorem atom_angle (h : t.kind = .operator .less) : (atom last (t :: rest)).read =
    (.angle (components last t.line rest).value t.line, (components last t.line rest).rest) := by
  have hl : literal? t = none := by simp [literal?, h]
  rw [atom, hl]
  simp only [h, Parsed.read]

def startsAtom (t : Token) : Bool :=
  match t.kind with
  | .identifier _ | .integer _ | .float _ | .string _ | .openParen | .openBracket => true
  | .operator s => s = .less
  | _ => false

theorem atom_other (h : startsAtom t = false) :
    (atom last (t :: rest)).read = (.broken (.syntactic t.line (.expectedOperand t)), []) := by
  rw [startsAtom] at h
  rw [atom, literal?]
  cases hk : t.kind with
  | identifier | integer | float | string | openParen | openBracket =>
    rw [hk] at h
    cases h
  | operator s =>
    rw [hk] at h
    have hs : s ≠ .less := of_decide_eq_false h
    simp [hs, Parsed.read, Parsed.broken, Parsed.atEnd]
  | keyword | typeName | closeParen | closeBracket | openBrace | closeBrace | semicolon | comma =>
    simp [Parsed.read, Parsed.broken, Parsed.atEnd]

theorem components_read {opening : Nat} : (components last opening ts).read =
    match (expression last true ts).rest with
    | [] => ([(expression last true ts).value, .broken (.syntactic opening .unclosedVector)], [])
    | t :: more =>
      if t.is .comma then
        ((expression last true ts).value :: (components last opening more).value,
          (components last opening more).rest)
      else if t.isSymbol .greater then ([(expression last true ts).value], more)
      else ([(expression last true ts).value, .broken (.syntactic t.line (.unexpectedInVector t))], []) := by
  rw [components]
  split
  · simp_all [Parsed.read, Parsed.atEnd]
  · rename_i t more hr
    simp only [hr]
    by_cases hc : t.is .comma = true
    · simp [hc, Parsed.read]
    · by_cases hg : t.isSymbol .greater = true <;> simp [hc, hg, Parsed.read, Parsed.atEnd]

theorem items_nil : items last [] = [] := by
  rw [items]

theorem items_cons :
    items last (t :: rest) =
    match (expression last false (t :: rest)).rest with
    | [] => [(expression last false (t :: rest)).value]
    | s :: more =>
      if s.is .comma then match more with
        | [] => [(expression last false (t :: rest)).value,
            .broken (.syntactic s.line .expectedExpressionAfterComma)]
        | m :: ms => (expression last false (t :: rest)).value :: items last (m :: ms)
      else [(expression last false (t :: rest)).value,
        .broken (.syntactic s.line (.unexpectedInList s))] := by
  rw [items]
  split
  · simp_all
  · rename_i s more hr
    simp only [hr]
    split
    · cases more <;> rfl
    · rfl

end WorldScript.Grammar
