import WorldScript.Token.Bracket

/-! # Matching brackets

A run in which every bracket has its partner is passed over as a whole when the partner of a bracket
before it is looked for.  The nested runs are of this kind, and the search finds exactly the partner that
stands after one.  Where there is none it names the first closing bracket that does not belong to the
innermost open one, or else the bracket it started from.
-/

namespace WorldScript.Bracket

variable {t c o : Token} {kind : TokenKind} {inner w ts after tokens : List Token} {i : Nat}

def Pairs (opening closing : TokenKind) : Prop :=
  opening = .openParen ∧ closing = .closeParen ∨ opening = .openBracket ∧ closing = .closeBracket ∨
    opening = .openBrace ∧ closing = .closeBrace

def Opens (t : Token) : Prop := ∃ kind, Pairs t.kind kind

def Closes (t : Token) : Prop := ∃ kind, Pairs kind t.kind

theorem isOpening_iff : isOpening t = true ↔ Opens t := by
  obtain ⟨kind, text, line⟩ := t
  cases kind <;> simp [isOpening, Opens, Pairs]

theorem closes?_eq_some_iff : closes? t = some kind ↔ Pairs kind t.kind := by
  obtain ⟨closing, text, line⟩ := t
  cases closing <;> simp [closes?, Pairs, eq_comm]

theorem closes?_eq_none (h : ¬ Closes t) : closes? t = none := by
  cases hc : closes? t with
  | none => rfl
  | some kind => exact absurd ⟨kind, closes?_eq_some_iff.mp hc⟩ h

theorem isOpening_eq_false (h : ¬ Opens t) : isOpening t = false :=
  Bool.eq_false_iff.mpr fun ho => h (isOpening_iff.mp ho)

theorem Closes.not_opens (h : Closes t) : ¬ Opens t := by
  obtain ⟨kind, hk⟩ := h
  rintro ⟨other, ho⟩
  rcases hk with ⟨-, hk⟩ | ⟨-, hk⟩ | ⟨-, hk⟩ <;> simp [Pairs, hk] at ho

theorem isOpening_of_closes? (h : closes? c = some kind) : isOpening c = false :=
  isOpening_eq_false (Closes.not_opens ⟨kind, closes?_eq_some_iff.mp h⟩)

def Balanced (run : List Token) : Prop :=
  ∀ (first innermost : Token) (outer rest : List Token),
    split first innermost outer (run ++ rest) =
      (split first innermost outer rest).map fun (inner, after) => (run ++ inner, after)

theorem map_append_map (r : Except Diagnostic (List Token × List Token)) (a b : List Token) :
    (r.map fun (inner, after) => (b ++ inner, after)).map (fun (inner, after) => (a ++ inner, after)) =
      r.map fun (inner, after) => (a ++ b ++ inner, after) := by
  cases r with
  | error d => rfl
  | ok p => simp [Except.map]

namespace Balanced

theorem nil : Balanced [] := by
  intro first innermost outer rest
  cases h : split first innermost outer rest <;> simp [Except.map, h]

theorem append {a b : List Token} (ha : Balanced a) (hb : Balanced b) : Balanced (a ++ b) := by
  intro first innermost outer rest
  rw [List.append_assoc, ha, hb, map_append_map]

theorem singleton {t : Token} (ho : isOpening t = false) (hc : closes? t = none) : Balanced [t] := by
  intro first innermost outer rest
  simp [split, ho, hc]

theorem cons {t : Token} {run : List Token} (ho : isOpening t = false) (hc : closes? t = none)
    (h : Balanced run) : Balanced (t :: run) :=
  append (singleton ho hc) h

/-- A balanced run between a bracket and its partner. -/
theorem enclosed {o c : Token} {run : List Token} (hc : closes? c = some o.kind) (h : Balanced run) :
    Balanced (o :: (run ++ [c])) := by
  intro first innermost outer rest
  have ho : isOpening o = true := isOpening_iff.mpr ⟨c.kind, closes?_eq_some_iff.mp hc⟩
  have hclose : split first o (innermost :: outer) (c :: rest) =
      (split first innermost outer rest).map fun (inner, after) => (c :: inner, after) := by
    simp [split, isOpening_of_closes? hc, hc]
  have hskip := h first o (innermost :: outer) (c :: rest)
  rw [hclose] at hskip
  simp only [List.cons_append, List.append_assoc, List.nil_append, split, ho, if_true, hskip]
  cases split first innermost outer rest with
  | error d => rfl
  | ok p => simp [Except.map]

end Balanced

/-- A balanced run is what stands between a bracket and its partner. -/
theorem inside_of_balanced {run rest : List Token} (h : Balanced run) (hc : closes? c = some o.kind) :
    inside o (run ++ [c] ++ rest) = .ok (run, rest) := by
  unfold inside
  rw [List.append_assoc, h]
  simp [split, isOpening_of_closes? hc, hc, Except.map]

/-- A balanced run does not close a bracket that is open before it. -/
theorem Balanced.not_closing {more : List Token} (h : Balanced inner) (hc : closes? c = some kind) :
    ¬ Balanced (inner ++ c :: more) := by
  intro hall
  -- with the run after it, an open bracket before `inner` is closed; without, it is not
  let o : Token := ⟨kind, "", 0⟩
  have hshort : inside o (inner ++ [c] ++ more) = .ok (inner, more) := inside_of_balanced h hc
  have hlong := hall o o [] []
  rw [List.append_nil] at hlong
  rw [List.append_assoc, List.singleton_append, inside, hlong] at hshort
  cases hshort

/-- Every bracket of a run has its partner in the run, inside that of the bracket around it. -/
inductive Nested : List Token → Prop
  | nil : Nested []
  | plain {t : Token} {run : List Token} (ho : ¬ Opens t) (hc : ¬ Closes t) (h : Nested run) :
    Nested (t :: run)
  | pair {o c : Token} {inner run : List Token} (hp : Pairs o.kind c.kind) (hi : Nested inner)
    (h : Nested run) :
      Nested (o :: (inner ++ c :: run))

namespace Nested

theorem append {a b : List Token} (ha : Nested a) (hb : Nested b) : Nested (a ++ b) := by
  induction ha with
  | nil => exact hb
  | plain ho hc _ ih => exact .plain ho hc ih
  | pair hp hi _ _ ih =>
    rw [List.cons_append, List.append_assoc, List.cons_append]
    exact .pair hp hi ih

theorem balanced {run : List Token} (h : Nested run) : Balanced run := by
  induction h with
  | nil => exact .nil
  | plain ho hc _ ih => exact .cons (isOpening_eq_false ho) (closes?_eq_none hc) ih
  | @pair o c inner run hp _ _ ihi ih =>
    simpa using (ihi.enclosed (closes?_eq_some_iff.mpr hp)).append ih

/-- A bracket that a nested run opens is closed in that run. -/
theorem partner {before after : List Token} {b : Token} (h : Nested (before ++ b :: after)) (hb : Opens b) :
    ∃ inner c rest, after = inner ++ c :: rest ∧ Closes c ∧ Nested inner := by
  generalize hw : before ++ b :: after = w at h
  induction h generalizing before after with
  | nil => simp at hw
  | plain ho _ _ ih =>
    cases before with
    | nil =>
      cases hw
      exact absurd hb ho
    | cons t before => exact ih (List.cons.inj hw).2
  | @pair o c inner run hp hi _ ihi ih =>
    have hc : Closes c := ⟨_, hp⟩
    cases before with
    | nil =>
      cases hw
      exact ⟨inner, c, run, rfl, hc, hi⟩
    | cons t before =>
      obtain ⟨y, rfl, hy⟩ | ⟨y, rfl, hy⟩ := List.append_eq_append_iff.mp (List.cons.inj hw).2
      · cases y with
        | nil =>
          cases hy
          exact absurd hb hc.not_opens
        | cons u y =>
          cases hy
          obtain ⟨inner', c', rest, rfl, hc', hi'⟩ := ihi rfl
          exact ⟨inner', c', rest ++ c :: run, by simp, hc', hi'⟩
      · cases y with
        | nil =>
          cases hy
          exact absurd hb hc.not_opens
        | cons u y => exact ih (List.cons.inj hy).2.symm

/-- What follows a bracket that a nested run opens is not nested. -/
theorem not_nested {before after : List Token} {b : Token} (h : Nested (before ++ b :: after))
    (hb : Opens b) : ¬ Nested after := by
  obtain ⟨inner, c, rest, rfl, ⟨kind, hc⟩, hi⟩ := h.partner hb
  exact fun hn => hi.balanced.not_closing (closes?_eq_some_iff.mpr hc) hn.balanced

end Nested

/-- `b` is the innermost bracket that `w` opens and does not close. -/
structure Innermost (b : Token) (w : List Token) : Prop where
  opens : Opens b
  tail : ∃ before run, w = before ++ b :: run ∧ Nested run

theorem Innermost.unique {b b' : Token} (h : Innermost b w) (h' : Innermost b' w) : b = b' := by
  obtain ⟨hb, before, run, rfl, hn⟩ := h
  obtain ⟨hb', before', run', hw, hn'⟩ := h'
  obtain ⟨y, rfl, hy⟩ | ⟨y, rfl, hy⟩ := List.append_eq_append_iff.mp hw
  · cases y with
    | nil => exact (List.cons.inj hy).1
    | cons t y => exact absurd hn' (((List.cons.inj hy).2 ▸ hn).not_nested hb')
  · cases y with
    | nil => exact (List.cons.inj hy).1.symm
    | cons t y => exact absurd hn (((List.cons.inj hy).2 ▸ hn').not_nested hb)

def Misfit (w : List Token) (i : Nat) (b c : Token) : Prop :=
  w[i]? = some c ∧ Closes c ∧ Innermost b (w.take i) ∧ ¬ Pairs b.kind c.kind

def Fitting (w : List Token) : Prop := ∀ i b c, ¬ Misfit w i b c

theorem Fitting.snoc (h : Fitting w) (ht : Closes t → ∀ b, Innermost b w → Pairs b.kind t.kind) :
    Fitting (w ++ [t]) := by
  rintro i b c ⟨hi, hc, hb, hnot⟩
  rcases Nat.lt_or_ge i w.length with hlt | hge
  · rw [List.getElem?_append_left hlt] at hi
    rw [List.take_append_of_le_length (Nat.le_of_lt hlt)] at hb
    exact h i b c ⟨hi, hc, hb, hnot⟩
  · obtain ⟨hlen, rfl⟩ := List.getElem?_eq_some_iff.mp hi
    obtain rfl : i = w.length := by
      rw [List.length_append, List.length_singleton] at hlen
      omega
    rw [List.take_left] at hb
    simp only [List.getElem_concat_length] at hc hnot
    exact hnot (ht hc b hb)

theorem Fitting.not_misfit {n : Nat} {b : Token} (h : Fitting (w.take n)) (hi : i < n) :
    ¬ Misfit w i b c := by
  rintro ⟨hget, hc, hb, hnot⟩
  refine h i b c ⟨?_, hc, ?_, hnot⟩
  · rw [List.getElem?_take_of_lt hi]
    exact hget
  · rw [List.take_take, Nat.min_eq_left (Nat.le_of_lt hi)]
    exact hb

/-- After `read`, the brackets open since `first` are `innermost` and, from the inside out, `outer`. -/
inductive Pending (first : Token) : List Token → Token → List Token → Prop
  | start {run : List Token} (h : Nested run) : Pending first run first []
  | deeper {read run outer : List Token} {b t : Token} (h : Pending first read b outer) (ht : Opens t)
      (hr : Nested run) : Pending first (read ++ t :: run) t (b :: outer)

namespace Pending

variable {first b : Token} {read outer : List Token}

theorem append {run : List Token} (h : Pending first read b outer) (hr : Nested run) :
    Pending first (read ++ run) b outer := by
  cases h with
  | start h => exact .start (h.append hr)
  | deeper h ht hn =>
    rw [List.append_assoc]
    exact .deeper h ht (hn.append hr)

/-- The partner of the innermost bracket leaves the next one innermost. -/
theorem close {next c : Token} (h : Pending first read b (next :: outer)) (hc : Pairs b.kind c.kind) :
    Pending first (read ++ [c]) next outer := by
  cases h with
  | deeper h _ hr =>
    rw [List.append_assoc]
    exact h.append (.pair hc hr .nil)

theorem tail (h : Pending first read b outer) :
    ∃ before run, first :: read = before ++ b :: run ∧ Nested run := by
  cases h with
  | start h => exact ⟨[], read, rfl, h⟩
  | deeper _ _ hr => exact ⟨first :: _, _, rfl, hr⟩

theorem innermost (h : Pending first read b outer) (ho : Opens first) : Innermost b (first :: read) := by
  refine ⟨?_, h.tail⟩
  cases h with
  | start => exact ho
  | deeper _ ht _ => exact ht

end Pending

/-- What the search for the partner of `first` comes to in the tokens after `read`. -/
inductive Search (first : Token) (read : List Token) :
    List Token → Except Diagnostic (List Token × List Token) → Prop
  | found {inner after : List Token} {c : Token} (hc : Pairs first.kind c.kind)
    (hn : Nested (read ++ inner)) :
      Search first read (inner ++ c :: after) (.ok (inner, after))
  | mismatched {more after : List Token} {b c : Token} (hf : Fitting (first :: (read ++ more)))
      (hb : Opens first → Innermost b (first :: (read ++ more))) (hc : Closes c)
        (hnot : ¬ Pairs b.kind c.kind) :
      Search first read (more ++ c :: after) (.error (.syntactic c.line (.mismatchedBracket c b)))
  | unclosed {ts : List Token} (hf : Fitting (first :: (read ++ ts))) :
      Search first read ts (.error (.syntactic first.line (.unclosedBracket first)))

theorem Search.cons {first : Token} {read : List Token} {r : Except Diagnostic (List Token × List Token)}
    (h : Search first (read ++ [t]) ts r) : Search first read (t :: ts) (r.map fun p => (t :: p.1, p.2)) := by
  cases h with
  | @found inner after c hc hn =>
    rw [List.append_assoc] at hn
    exact @Search.found first read (t :: inner) after c hc hn
  | @mismatched more after b c hf hb hc hnot =>
    rw [List.append_assoc] at hf hb
    exact @Search.mismatched first read (t :: more) after b c hf hb hc hnot
  | unclosed hf =>
    rw [List.append_assoc] at hf
    exact .unclosed hf

-- the induction follows the tokens; the brackets that `split` carries are those pending after `read`
theorem split_search {first innermost : Token} {read outer : List Token}
    (h : Pending first read innermost outer) (hf : Fitting (first :: read)) (ts : List Token) :
    Search first read ts (split first innermost outer ts) := by
  induction ts generalizing read innermost outer with
  | nil => exact .unclosed (by rwa [List.append_nil])
  | cons t rest ih =>
    by_cases hc : Closes t
    · obtain ⟨kind, hk⟩ := hc
      have hclose := closes?_eq_some_iff.mpr hk
      simp only [split, isOpening_of_closes? hclose, hclose, Bool.false_eq_true, if_false]
      split
      · rename_i hin
        subst hin
        have hfit : Fitting (first :: (read ++ [t])) := by
          refine hf.snoc fun _ b hb => ?_
          rwa [hb.unique ⟨⟨_, hk⟩, h.tail⟩]
        cases outer with
        | nil =>
          cases h with
          | start hn => exact @Search.found first read [] rest t hk (by rwa [List.append_nil])
        | cons next others => exact (ih (h.close hk) hfit).cons
      · rename_i hin
        refine @Search.mismatched first read [] rest innermost t ?_ ?_ ⟨kind, hk⟩ ?_
        · rwa [List.append_nil]
        · rw [List.append_nil]
          exact h.innermost
        · intro hp
          rw [closes?_eq_some_iff.mpr hp] at hclose
          exact hin (Option.some.inj hclose)
    · have hfit : Fitting (first :: (read ++ [t])) := hf.snoc fun hcloses => absurd hcloses hc
      by_cases ho : Opens t
      · simp only [split, isOpening_iff.mpr ho, if_true]
        exact (ih (.deeper h ho .nil) hfit).cons
      · simp only [split, isOpening_eq_false ho, closes?_eq_none hc, Bool.false_eq_true, if_false]
        exact (ih (h.append (.plain ho hc .nil)) hfit).cons

theorem inside_search (o : Token) (ts : List Token) : Search o [] ts (inside o ts) := by
  refine split_search (.start .nil) ?_ ts
  rintro (_ | i) b c ⟨hi, -, hb, -⟩
  · obtain ⟨before, run, hw, -⟩ := hb.tail
    simp at hw
  · cases hi

/-- The partner of a bracket stands after a nested run. -/
theorem inside_iff :
    inside o ts = .ok (inner, after) ↔ ∃ c, Pairs o.kind c.kind ∧ Nested inner ∧
      ts = inner ++ c :: after := by
  constructor
  · intro h
    have hs := inside_search o ts
    rw [h] at hs
    cases hs with
    | found hc hn => exact ⟨_, hc, hn, rfl⟩
  · rintro ⟨c, hc, hn, rfl⟩
    have hok : inside o (inner ++ [c] ++ after) = .ok (inner, after) :=
      inside_of_balanced hn.balanced (closes?_eq_some_iff.mpr hc)
    rwa [List.append_assoc] at hok

/-- What follows a bracket is the run inside, its partner, and the rest. -/
theorem inside_eq_ok (h : inside o ts = .ok (inner, after)) :
    ∃ c, closes? c = some o.kind ∧ ts = inner ++ c :: after := by
  obtain ⟨c, hc, _, hts⟩ := inside_iff.mp h
  exact ⟨c, closes?_eq_some_iff.mpr hc, hts⟩

/-- What comes after the partner does not matter. -/
theorem inside_followed (h : inside o ts = .ok (inner, after)) :
    ∃ us, ts = us ++ after ∧ ∀ more, inside o (us ++ more) = .ok (inner, more) := by
  obtain ⟨c, hc, hn, rfl⟩ := inside_iff.mp h
  exact ⟨inner ++ [c], by simp, fun more => inside_iff.mpr ⟨c, hc, hn, by simp⟩⟩

/-- A missing or wrong partner is a problem of syntax. -/
theorem inside_error {d : Diagnostic} (h : inside o ts = .error d) :
    ∃ line cause, d = .syntactic line cause := by
  have hs := inside_search o ts
  rw [h] at hs
  cases hs with
  | mismatched => exact ⟨_, _, rfl⟩
  | unclosed => exact ⟨_, _, rfl⟩

def Partner (tokens : List Token) (start i : Nat) : Prop :=
  ∃ o c, tokens[start]? = some o ∧ tokens[i]? = some c ∧ start < i ∧ Pairs o.kind c.kind ∧
    Nested (tokens.extract (start + 1) i)

theorem Partner.lt_length {start : Nat} (h : Partner tokens start i) : i < tokens.length := by
  obtain ⟨o, c, -, hc, -⟩ := h
  exact (List.getElem?_eq_some_iff.mp hc).1

theorem drop_of_getElem? (h : tokens[i]? = some t) : tokens.drop i = t :: tokens.drop (i + 1) := by
  obtain ⟨hlt, rfl⟩ := List.getElem?_eq_some_iff.mp h
  exact List.drop_eq_getElem_cons hlt

theorem getElem?_of_drop {before : List Token} {k : Nat} (h : tokens.drop k = before ++ c :: after) :
    tokens[k + before.length]? = some c := by
  rw [← List.getElem?_drop, h]
  simp

section Search

variable {tokens : List Token} {start i j : Nat} {o : Token} (ho : tokens[start]? = some o)

include ho

theorem inside_eq_ok_iff :
    inside o (tokens.drop (start + 1)) = .ok (tokens.extract (start + 1) i, tokens.drop (i + 1)) ↔
      Partner tokens start i := by
  rw [inside_iff]
  constructor
  · rintro ⟨c, hc, hn, hdrop⟩
    have hlen := congrArg List.length hdrop
    simp only [List.extract_eq_take_drop, List.length_append, List.length_cons, List.length_take,
      List.length_drop] at hlen
    have hi : start + 1 + (tokens.extract (start + 1) i).length = i := by
      simp only [List.extract_eq_take_drop, List.length_take, List.length_drop]
      omega
    refine ⟨o, c, ho, ?_, by omega, hc, hn⟩
    rw [← hi]
    exact getElem?_of_drop hdrop
  · rintro ⟨o', c, ho', hi, hlt, hc, hn⟩
    rw [ho] at ho'
    cases ho'
    refine ⟨c, hc, hn, ?_⟩
    have hrest : (tokens.drop (start + 1)).drop (i - (start + 1)) = c :: tokens.drop (i + 1) := by
      rw [List.drop_drop, Nat.add_sub_cancel' hlt, drop_of_getElem? hi]
    rw [List.extract_eq_take_drop, ← hrest, List.take_append_drop]

theorem Partner.unique (hi : Partner tokens start i) (hj : Partner tokens start j) : i = j := by
  have hsame := (inside_eq_ok_iff ho).mpr hi
  rw [(inside_eq_ok_iff ho).mpr hj] at hsame
  have hlen := congrArg List.length (Prod.mk.inj (Except.ok.inj hsame)).2
  simp only [List.length_drop] at hlen
  have hilt := hi.lt_length
  have hjlt := hj.lt_length
  omega

end Search

/-- The search from a bracket returns what is between it and its one partner, and what is after.  Without
a partner it fails at the first closing bracket that is not the partner of the innermost open one, or, when
the tokens end before such a bracket, at the bracket it started from. -/
theorem inside_partner_or_misfit {tokens : List Token} {start : Nat} {o : Token}
    (ho : tokens[start]? = some o) (hopens : Opens o) :
    (∀ i, inside o (tokens.drop (start + 1)) = .ok (tokens.extract (start + 1) i, tokens.drop (i + 1)) ↔
      Partner tokens start i) ∧
    (∀ i j, Partner tokens start i → Partner tokens start j → i = j) ∧
    ((∀ i, ¬ Partner tokens start i) →
      (∃ i b c, Misfit (tokens.drop start) i b c ∧ (∀ j < i, ∀ b' c', ¬ Misfit (tokens.drop start) j b' c') ∧
        inside o (tokens.drop (start + 1)) = .error (.syntactic c.line (.mismatchedBracket c b))) ∨
      (∀ i b c, ¬ Misfit (tokens.drop start) i b c) ∧
        inside o (tokens.drop (start + 1)) = .error (.syntactic o.line (.unclosedBracket o))) := by
  refine ⟨fun i => inside_eq_ok_iff ho, fun i j => Partner.unique ho, fun hnone => ?_⟩
  have hs := inside_search o (tokens.drop (start + 1))
  rw [drop_of_getElem? ho]
  generalize hts : tokens.drop (start + 1) = ts at hs ⊢
  generalize hr : inside o ts = r at hs ⊢
  cases hs with
  | @found inner after c hc hn =>
    have hrun : tokens.extract (start + 1) (start + 1 + inner.length) = inner := by
      rw [List.extract_eq_take_drop, Nat.add_sub_cancel_left, hts, List.take_left]
    exact absurd ⟨o, c, ho, getElem?_of_drop hts, by omega, hc, by rwa [hrun]⟩ (hnone _)
  | @mismatched more after b c hf hb hc hnot =>
    have hread : (o :: (more ++ c :: after)).take (more.length + 1) = o :: more := by simp
    refine .inl ⟨more.length + 1, b, c, ⟨by simp, hc, ?_, hnot⟩, fun j hj b' c' => ?_, rfl⟩
    · rw [hread]
      exact hb hopens
    · refine Fitting.not_misfit ?_ hj
      rw [hread]
      exact hf
  | unclosed hf => exact .inr ⟨hf, rfl⟩

def crossed : List Token :=
  [⟨.openParen, "(", 1⟩, ⟨.openBracket, "[", 2⟩, ⟨.closeBracket, "]", 3⟩, ⟨.openBracket, "[", 4⟩,
    ⟨.closeParen, ")", 5⟩]

/-- The first square bracket has a partner.  The parenthesis has none: another bracket is open where it
is closed. -/
theorem crossed_misfit : Partner crossed 1 2 ∧ ∃ i b c, Misfit crossed i b c ∧ c.line = 5 := by
  have hbracket : Opens ⟨.openBracket, "[", 2⟩ := ⟨.closeBracket, by simp [Pairs]⟩
  have hparen : Opens ⟨.openParen, "(", 1⟩ := ⟨.closeParen, by simp [Pairs]⟩
  refine ⟨((@inside_partner_or_misfit crossed 1 _ rfl hbracket).1 2).mp rfl, ?_⟩
  obtain ⟨hpartner, -, hotherwise⟩ := @inside_partner_or_misfit crossed 0 _ rfl hparen
  have hfails : inside ⟨.openParen, "(", 1⟩ (crossed.drop 1) =
      .error (.syntactic 5 (.mismatchedBracket ⟨.closeParen, ")", 5⟩ ⟨.openBracket, "[", 4⟩)) := rfl
  simp only [hfails] at hpartner hotherwise
  obtain ⟨i, b, c, hm, -, hc⟩ | ⟨-, hunclosed⟩ := hotherwise fun i hi => by cases (hpartner i).mpr hi
  · exact ⟨i, b, c, hm, (congrArg Diagnostic.line (Except.error.inj hc)).symm⟩
  · cases hunclosed

end WorldScript.Bracket
