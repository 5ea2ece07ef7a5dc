import WorldScript.Diagnostic

/-! # Matching brackets -/

namespace WorldScript.Bracket

def isOpening (t : Token) : Bool :=
  match t.kind with
  | .openParen | .openBracket | .openBrace => true
  | _ => false

def closes? (t : Token) : Option TokenKind :=
  match t.kind with
  | .closeParen => some .openParen
  | .closeBracket => some .openBracket
  | .closeBrace => some .openBrace
  | _ => none

/-- Splits the tokens after an opening bracket at its partner.  `innermost` is the innermost open
bracket, `outer` holds those around it, and `first` is the outermost one. -/
def split (first innermost : Token) (outer : List Token) :
    List Token → Except Diagnostic (List Token × List Token)
  | [] => .error (.syntactic first.line (.unclosedBracket first))
  | t :: rest =>
    if isOpening t then (split first t (innermost :: outer) rest).map fun (inner, after) =>
      (t :: inner, after)
    else match closes? t with
      | none => (split first innermost outer rest).map fun (inner, after) => (t :: inner, after)
      | some kind =>
        if innermost.kind = kind then
          match outer with
          | [] => .ok ([], rest)
          | next :: others =>
            (split first next others rest).map fun (inner, after) => (t :: inner, after)
        else .error (.syntactic t.line (.mismatchedBracket t innermost))

def inside (opening : Token) (ts : List Token) : Except Diagnostic (List Token × List Token) :=
  split opening opening [] ts

/-- Lengths after one more token inside. -/
theorem length_of_map_cons {r : Except Diagnostic (List Token × List Token)} {t : Token} {n : Nat}
    {inner after : List Token} (ih : ∀ a b, r = .ok (a, b) → a.length + b.length + 1 = n)
    (h : r.map (fun (a, b) => (t :: a, b)) = .ok (inner, after)) :
    inner.length + after.length + 1 = n + 1 := by
  cases r with
  | error d => simp [Except.map] at h
  | ok p =>
    obtain ⟨a, b⟩ := p
    simp only [Except.map, Except.ok.injEq, Prod.mk.injEq] at h
    obtain ⟨rfl, rfl⟩ := h
    have := ih a b rfl
    simp only [List.length_cons]
    omega

/-- Only the partner is lost. -/
theorem split_length {first innermost : Token} {outer ts inner after : List Token}
    (h : split first innermost outer ts = .ok (inner, after)) :
    inner.length + after.length + 1 = ts.length := by
  induction ts generalizing innermost outer inner after with
  | nil => simp [split] at h
  | cons t rest ih =>
    unfold split at h
    split at h
    · exact length_of_map_cons (fun _ _ => ih) h
    · split at h
      · exact length_of_map_cons (fun _ _ => ih) h
      · split at h
        · split at h
          · simp only [Except.ok.injEq, Prod.mk.injEq] at h
            obtain ⟨rfl, rfl⟩ := h
            simp
          · exact length_of_map_cons (fun _ _ => ih) h
        · simp at h

/-- Only the partner is lost. -/
theorem inside_length {opening : Token} {ts inner after : List Token}
    (h : inside opening ts = .ok (inner, after)) : inner.length + after.length + 1 = ts.length :=
  split_length h

end WorldScript.Bracket
