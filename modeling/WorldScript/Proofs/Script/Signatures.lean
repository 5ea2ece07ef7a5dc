import WorldScript.Proofs.Script.Tiling

/-! # Signatures

A parameter list before a brace is recognized token by token.  It is read in another way: the partner of
its parenthesis is found first, and what stands between the two is cut at the commas.  Both go by one
grammar, so a signature is recognized exactly where parameters are read and a brace follows them.
-/

namespace WorldScript.Header

/-- What is recognized from the first type on spells parameters up to a parenthesis. -/
theorem spelled_of_isParamTail {ts : List Token} (h : isParamTail ts = true) :
    ∃ ps run close after, Param.Spelled ps run ∧ close.kind = .closeParen ∧ ts = run ++ close :: after ∧
      startsWith .openBrace after = true := by
  induction ts using isParamTail.induct with
  | case1 t n next rest ih =>
    simp only [isParamTail, Bool.and_eq_true, Option.isSome_iff_exists] at h
    obtain ⟨⟨⟨ty, hty⟩, name, hname⟩, h⟩ := h
    have ht := ty?_eq_some.mp hty
    have hn := Grammar.identifier?_eq_some.mp hname
    split at h
    · rename_i hcomma
      obtain ⟨ps, run, close, after, hrun, hclose, rfl, hafter⟩ := ih h
      exact ⟨_, _, close, after, .more ht hn (of_decide_eq_true hcomma) hrun, hclose, rfl, hafter⟩
    · obtain ⟨hclose, hafter⟩ := Bool.and_eq_true_iff.mp h
      exact ⟨_, _, next, rest, .one ht hn, of_decide_eq_true hclose, rfl, hafter⟩
  | case2 ts hshort =>
    rw [isParamTail] at h
    · cases h
    · exact hshort

/-- A signature is recognized exactly where parameters stand in parentheses before a brace. -/
theorem isSignature_iff_enclosed {o : Token} {ts : List Token} :
    isSignature (o :: ts) = true ↔
    ∃ ps run after, Param.Enclosed ps (o :: run) ∧ ts = run ++ after ∧
      startsWith .openBrace after = true := by
  constructor
  · intro h
    simp only [isSignature, Bool.and_eq_true] at h
    obtain ⟨ho, h⟩ := h
    have ho : o.kind = .openParen := of_decide_eq_true ho
    cases ts with
    | nil => cases h
    | cons t after =>
      dsimp only at h
      split at h
      · rename_i hclose
        exact ⟨[], [t], after, .none ho (of_decide_eq_true hclose), rfl, h⟩
      · obtain ⟨ps, run, close, after, hrun, hclose, hts, hafter⟩ := spelled_of_isParamTail h
        exact ⟨ps, run ++ [close], after, .some ho hrun hclose, by simp [hts], hafter⟩
  · rintro ⟨ps, run, after, hrun, rfl, hafter⟩
    exact isSignature_of_enclosed hrun hafter

theorem params_iff_enclosed {o : Token} (ho : o.kind = .openParen) {ts after : List Token} {ps : List Param} :
    params o ts = .ok (ps, after) ↔ ∃ run, Param.Enclosed ps (o :: run) ∧ ts = run ++ after := by
  constructor
  · exact enclosed_of_params ho
  · rintro ⟨run, hrun, rfl⟩
    exact params_of_enclosed hrun after

/-- The last token of a parameter list closes it. -/
theorem close_of_enclosed {o : Token} {run : List Token} {ps : List Param}
    (h : Param.Enclosed ps (o :: run)) :
    ∃ inner close, run = inner ++ [close] ∧ close.kind = .closeParen := by
  cases h with
  | @none _ close _ hclose => exact ⟨[], close, rfl, hclose⟩
  | some _ _ hclose => exact ⟨_, _, rfl, hclose⟩

theorem startsWith_iff {kind : TokenKind} {ts : List Token} :
    startsWith kind ts = true ↔ ∃ t, ts[0]? = some t ∧ t.kind = kind := by
  cases ts with
  | nil => simp [startsWith]
  | cons t rest => simp [startsWith, Token.is]

/-- A signature is recognized at a parenthesis exactly when the parameters after it are read and the
token behind the parenthesis that closes them is a brace. -/
theorem isSignature_iff_params {ts : List Token} {i : Nat} {o : Token} (hi : ts[i]? = some o)
    (ho : o.kind = .openParen) :
    isSignature (ts.drop i) = true ↔
      ∃ ps close, params o (ts.drop (i + 1)) = .ok (ps, ts.drop (close + 1)) ∧
        (∃ c, ts[close]? = some c ∧ c.kind = .closeParen) ∧ ∃ b, ts[close + 1]? = some b ∧
          b.kind = .openBrace := by
  have hdrop : ts.drop i = o :: ts.drop (i + 1) := by
    obtain ⟨hlt, rfl⟩ := List.getElem?_eq_some_iff.mp hi
    exact List.drop_eq_getElem_cons hlt
  rw [hdrop, isSignature_iff_enclosed]
  constructor
  · rintro ⟨ps, run, after, hrun, hts, hafter⟩
    obtain ⟨inner, close, rfl, hclose⟩ := close_of_enclosed hrun
    have hnext : ts.drop (i + 1 + inner.length + 1) = after := by
      rw [Nat.add_assoc, ← List.drop_drop, hts]
      simp
    refine ⟨ps, i + 1 + inner.length, ?_, ⟨close, ?_, hclose⟩, ?_⟩
    · rw [hnext, params_iff_enclosed ho]
      exact ⟨_, hrun, hts⟩
    · rw [← List.getElem?_drop, hts]
      simp
    · obtain ⟨b, hb, hkind⟩ := startsWith_iff.mp hafter
      refine ⟨b, ?_, hkind⟩
      rwa [← hnext, List.getElem?_drop] at hb
  · rintro ⟨ps, close, hparams, -, b, hb, hkind⟩
    obtain ⟨run, hrun, hts⟩ := (params_iff_enclosed ho).mp hparams
    refine ⟨ps, run, _, hrun, hts, startsWith_iff.mpr ⟨b, ?_, hkind⟩⟩
    rwa [List.getElem?_drop]

def Sample.headed : List Token := [
  ⟨.identifier "f", "f", 1⟩, ⟨.openParen, "(", 1⟩, ⟨.typeName .integer, "integer", 1⟩,
    ⟨.identifier "a", "a", 1⟩,
  ⟨.comma, ",", 1⟩, ⟨.typeName .key, "key", 2⟩, ⟨.identifier "b", "b", 2⟩, ⟨.closeParen, ")", 2⟩,
  ⟨.openBrace, "\x7b", 2⟩]

theorem headed_params : Sample.headed[1]? = some ⟨.openParen, "(", 1⟩ ∧
    ∃ ps close,
      params ⟨.openParen, "(", 1⟩ (Sample.headed.drop 2) = .ok (ps, Sample.headed.drop (close + 1)) ∧
      (∃ c, Sample.headed[close]? = some c ∧ c.kind = .closeParen) ∧
      ∃ b, Sample.headed[close + 1]? = some b ∧ b.kind = .openBrace := by
  have hrecognized : isSignature (Sample.headed.drop 1) = true := by decide
  exact ⟨rfl, (isSignature_iff_params rfl rfl).mp hrecognized⟩

end WorldScript.Header
