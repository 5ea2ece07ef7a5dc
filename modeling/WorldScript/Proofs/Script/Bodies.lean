import WorldScript.Proofs.Body.Wholeness

/-! # Where bodies end

Two guesses may move the end of a body away from the brace that balances its first one: a header where a
statement should start ends it, and a balancing brace before what looks like a statement does not.  Nothing
in an accepted body looks like a header, because a header has a brace where every statement still has to
close a parenthesis or to end with a semicolon.
-/

namespace WorldScript

variable {ts : List Token}

def Token.Quiet (t : Token) : Prop := t.kind ≠ .openBrace ∧ t.kind ≠ .closeBrace ∧ t.kind ≠ .semicolon

structure Calm (run : List Token) : Prop where
  quiet : ∀ t ∈ run, t.Quiet
  balanced : Bracket.Balanced run

namespace Calm

theorem nil : Calm [] := ⟨by simp, .nil⟩

theorem cons {t : Token} {run : List Token} (ho : Bracket.isOpening t = false) (hc : Bracket.closes? t = none)
    (hs : t.kind ≠ .semicolon) (h : Calm run) : Calm (t :: run) := by
  refine ⟨List.forall_mem_cons.mpr ⟨⟨?_, ?_, hs⟩, h.quiet⟩, .cons ho hc h.balanced⟩
  · intro hk
    simp [Bracket.isOpening, hk] at ho
  · intro hk
    simp [Bracket.closes?, hk] at hc

theorem parenthesized {o c : Token} {run : List Token} (ho : o.kind = .openParen) (hc : c.kind = .closeParen)
    (h : Calm run) : Calm (o :: (run ++ [c])) := by
  refine ⟨?_, .enclosed (by simp [Bracket.closes?, hc, ho]) h.balanced⟩
  have hclose : ∀ t ∈ [c], t.Quiet := by simp [Token.Quiet, hc]
  exact List.forall_mem_cons.mpr ⟨by simp [Token.Quiet, ho], List.forall_mem_append.mpr ⟨h.quiet, hclose⟩⟩

end Calm

theorem Term.Derives.quiet {angle : Bool} {p : Term.Phrase} (h : Term.Derives angle ts p) :
    ∀ t ∈ ts, t.Quiet := by
  have hop {t : Token} {s : Symbol} {position : Position} {n : Nat} (h : Term.IsOperator t s position n) :
      t.Quiet := by simp [Token.Quiet, h.kind]
  induction h with
  | literal ht =>
    unfold Grammar.literal? at ht
    split at ht <;> simp_all [Token.Quiet]
  | name ht => simp [Token.Quiet, ht]
  | call ht ho _ hc ih => simp_all [Token.Quiet, or_imp, forall_and]
  | parenthesized ho _ hc ih | list ho _ hc ih | angle ho _ hc ih =>
    simp_all [Token.Quiet, or_imp, forall_and]
  | uncast _ ih | castable _ ih | looser _ _ ih | one _ ih | someItems _ ih => exact ih
  | cast ho hn hc _ ih => simp_all [Token.Quiet, or_imp, forall_and]
  | negativeInteger hm hn | negativeFloat hm hn => simp [Token.Quiet, hm, hn]
  | label ho hn => simp [Token.Quiet, ho.kind, hn]
  | stepAfter _ ho _ ih => exact List.forall_mem_append.mpr ⟨ih, by simpa using hop ho⟩
  | member _ ho hn ih => exact List.forall_mem_append.mpr ⟨ih, by simp [Token.Quiet, ho.kind, hn]⟩
  | unary ho _ _ ih | stepBefore ho _ _ ih => exact List.forall_mem_cons.mpr ⟨hop ho, ih⟩
  | leftmost _ _ _ ho _ _ _ ihl ihr | rightmost _ _ _ ho _ _ _ ihl ihr =>
    exact List.forall_mem_append.mpr ⟨ihl, List.forall_mem_cons.mpr ⟨hop ho, ihr⟩⟩
  | more _ hc _ ih ihs =>
    exact List.forall_mem_append.mpr ⟨ih, List.forall_mem_cons.mpr ⟨by simp [Token.Quiet, hc], ihs⟩⟩
  | noItems => simp

theorem Term.Derives.calm {angle : Bool} {p : Term.Phrase} (h : Term.Derives angle ts p) :
    Calm ts := ⟨h.quiet, h.balanced⟩

theorem Term.calm_of_whole {line : Nat} (h : (Term.ofTokens line ts).All .whole) : Calm ts :=
  (Term.spelled_ofTokens h).calm

namespace Header

variable {ts run : List Token} {t : Token}

theorem startsWith_split {kind : TokenKind} (h : startsWith kind ts = true) :
    ∃ t more, ts = t :: more ∧ t.kind = kind := by
  cases ts with
  | nil => cases h
  | cons t more => exact ⟨t, more, rfl, of_decide_eq_true h⟩

def Heads (run ts : List Token) : Prop := ∃ brace more, brace.kind = .openBrace ∧ ts = run ++ brace :: more

theorem Heads.cons (h : Heads run ts) : Heads (t :: run) (t :: ts) := by
  obtain ⟨brace, more, hb, rfl⟩ := h
  exact ⟨brace, more, hb, rfl⟩

theorem heads_nil (h : startsWith .openBrace ts = true) : Heads [] ts := by
  obtain ⟨t, more, rfl, ht⟩ := startsWith_split h
  exact ⟨t, more, ht, rfl⟩

theorem calm_type (ht : t.ty?.isSome = true) (h : Calm run) : Calm (t :: run) := by
  unfold Token.ty? at ht
  split at ht
  · rename_i hk
    exact h.cons (by simp [Bracket.isOpening, hk]) (by simp [Bracket.closes?, hk]) (by simp [hk])
  · cases ht

theorem calm_identifier (ht : t.identifier?.isSome = true) (h : Calm run) : Calm (t :: run) := by
  unfold Token.identifier? at ht
  split at ht
  · rename_i hk
    exact h.cons (by simp [Bracket.isOpening, hk]) (by simp [Bracket.closes?, hk]) (by simp [hk])
  · cases ht

theorem calm_keyword {word : Keyword} (ht : t.kind = .keyword word) (h : Calm run) : Calm (t :: run) :=
  h.cons (by simp [Bracket.isOpening, ht]) (by simp [Bracket.closes?, ht]) (by simp [ht])

theorem calm_stateName (ht : t.stateName?.isSome = true) (h : Calm run) : Calm (t :: run) := by
  unfold Token.stateName? at ht
  split at ht
  · rename_i hdefault
    exact calm_keyword (of_decide_eq_true hdefault) h
  · exact calm_identifier ht h

theorem isParamTail_heads (h : isParamTail ts = true) :
    ∃ inner close, Calm inner ∧ close.kind = .closeParen ∧ Heads (inner ++ [close]) ts := by
  induction ts using isParamTail.induct with
  | case1 ty name next rest ih =>
    rw [isParamTail] at h
    simp only [Bool.and_eq_true] at h
    obtain ⟨⟨hty, hname⟩, h⟩ := h
    split at h
    · rename_i hcomma
      obtain ⟨inner, close, hinner, hclose, hheads⟩ := ih h
      have hk : next.kind = .comma := of_decide_eq_true hcomma
      refine ⟨ty :: name :: next :: inner, close, calm_type hty (calm_identifier hname ?_), hclose,
        hheads.cons.cons.cons⟩
      exact hinner.cons (by simp [Bracket.isOpening, hk]) (by simp [Bracket.closes?, hk]) (by simp [hk])
    · simp only [Bool.and_eq_true] at h
      exact ⟨[ty, name], next, calm_type hty (calm_identifier hname .nil), of_decide_eq_true h.1,
        (heads_nil h.2).cons.cons.cons⟩
  | case2 ts hshort =>
    rw [isParamTail] at h
    · cases h
    · exact hshort

theorem isSignature_heads (h : isSignature ts = true) : ∃ run, Calm run ∧ Heads run ts := by
  cases ts with
  | nil => cases h
  | cons o rest =>
    simp only [isSignature, Bool.and_eq_true] at h
    obtain ⟨ho, h⟩ := h
    have ho : o.kind = .openParen := of_decide_eq_true ho
    cases rest with
    | nil => cases h
    | cons t after =>
      dsimp only at h
      split at h
      · rename_i ht
        exact ⟨_, Calm.nil.parenthesized ho (of_decide_eq_true ht), (heads_nil h).cons.cons⟩
      · obtain ⟨inner, close, hinner, hclose, hheads⟩ := isParamTail_heads h
        exact ⟨_, hinner.parenthesized ho hclose, hheads.cons⟩

/-- A header is a calm run before a brace. -/
theorem isHeader_heads (h : isHeader ts = true) : ∃ run, Calm run ∧ Heads run ts := by
  cases ts with
  | nil => cases h
  | cons t rest =>
    unfold isHeader at h
    dsimp only at h
    split at h
    · rename_i hk
      exact ⟨[t], calm_keyword hk .nil, (heads_nil h).cons⟩
    · rename_i hk
      cases rest with
      | nil => cases h
      | cons name after =>
        simp only [Bool.and_eq_true] at h
        exact ⟨[t, name], calm_keyword hk (calm_stateName h.1 .nil), (heads_nil h.2).cons.cons⟩
    · rename_i ty hk
      cases rest with
      | nil => cases h
      | cons name after =>
        simp only [Bool.and_eq_true] at h
        obtain ⟨run, hrun, hheads⟩ := isSignature_heads h.2
        exact ⟨t :: name :: run, calm_type (by simp [Token.ty?, hk]) (calm_identifier h.1 hrun),
          hheads.cons.cons⟩
    · rename_i name hk
      obtain ⟨run, hrun, hheads⟩ := isSignature_heads h
      exact ⟨t :: run, calm_identifier (by simp [Token.identifier?, hk]) hrun, hheads.cons⟩
    · cases h

/-- The token after quiet tokens that start a header belongs to the header, unless it is the brace. -/
theorem isHeader_append {rest : List Token} (hrun : ∀ t ∈ run, t.Quiet) (ht : t.kind ≠ .openBrace)
    (h : isHeader (run ++ t :: rest) = true) : ∃ more, Calm (run ++ t :: more) := by
  obtain ⟨head, hhead, brace, after, hb, hts⟩ := isHeader_heads h
  rcases List.append_eq_append_iff.mp hts with ⟨tail, rfl, hrest⟩ | ⟨tail, rfl, hrest⟩
  · cases tail with
    | nil =>
      obtain ⟨rfl, -⟩ := List.cons.inj hrest
      exact absurd hb ht
    | cons u more =>
      obtain ⟨rfl, -⟩ := List.cons.inj hrest
      exact ⟨more, hhead⟩
  · cases tail with
    | nil =>
      obtain ⟨rfl, -⟩ := List.cons.inj hrest
      exact absurd hb ht
    | cons u more =>
      -- the brace would be one of the quiet tokens
      obtain ⟨rfl, -⟩ := List.cons.inj hrest
      exact absurd hb (hrun brace (by simp)).1

theorem not_isHeader_semicolon {semi : Token} (hrun : ∀ t ∈ run, t.Quiet) (hs : semi.kind = .semicolon)
    (rest : List Token) : isHeader (run ++ semi :: rest) = false := by
  rw [Bool.eq_false_iff]
  intro h
  obtain ⟨more, hmore⟩ := isHeader_append hrun (by simp [hs]) h
  exact (hmore.quiet semi (by simp)).2.2 hs

theorem not_isHeader_closeParen {inner : List Token} {c : Token} (hinner : Calm inner)
    (hc : c.kind = .closeParen) (rest : List Token) : isHeader (inner ++ c :: rest) = false := by
  rw [Bool.eq_false_iff]
  intro h
  obtain ⟨more, hmore⟩ := isHeader_append hinner.quiet (by simp [hc]) h
  have hclose : Bracket.closes? c = some .openParen := by simp [Bracket.closes?, hc]
  exact hinner.balanced.not_closing hclose hmore.balanced

end Header

/-- Splits tokens behind the brace that balances one before them.  `depth` counts the braces opened since. -/
def untilBalance : Nat → List Token → Option (List Token × List Token)
  | _, [] => none
  | depth, t :: rest =>
    match t.kind with
    | .openBrace => (untilBalance (depth + 1) rest).map fun p => (t :: p.1, p.2)
    | .closeBrace =>
      match depth with
      | 0 => some ([t], rest)
      | outer + 1 => (untilBalance outer rest).map fun p => (t :: p.1, p.2)
    | _ => (untilBalance depth rest).map fun p => (t :: p.1, p.2)

/-- The tokens of a body are those up to the brace that balances its opening brace, and with it, whatever
comes next. -/
def Block.Closes (b : Block) : Prop := ∀ next, untilBalance 0 (b.tokens ++ next) = some (b.tokens, next)

namespace Declaration

variable {inState fresh : Bool} {depth : Nat} {t : Token} {run rest : List Token}

def Cut.after (run : List Token) (c : Cut) : Cut := { c with tokens := run ++ c.tokens }

theorem Cut.after_append (a b : List Token) (c : Cut) : (c.after b).after a = c.after (a ++ b) := by
  simp [after]

theorem cut_openBrace (ht : t.kind = .openBrace) :
    cut inState depth fresh (t :: rest) = (cut inState (depth + 1) true rest).after [t] := by
  simp only [cut, ht]
  rfl

theorem cut_innerBrace (ht : t.kind = .closeBrace) :
    cut inState (depth + 2) fresh (t :: rest) = (cut inState (depth + 1) true rest).after [t] := by
  simp only [cut, ht]
  rfl

theorem cut_token (ho : t.kind ≠ .openBrace) (hc : t.kind ≠ .closeBrace)
    (hh : (fresh && Header.isHeader (t :: rest)) = false) :
    cut inState depth fresh (t :: rest) = (cut inState depth (t.kind = .semicolon) rest).after [t] := by
  rw [cut]
  split
  · exact absurd ‹_› ho
  · exact absurd ‹_› hc
  · rw [if_neg (by simp [hh])]
    rfl

/-- Inside a statement nothing is taken for a header. -/
theorem cut_quiet (hrun : ∀ t ∈ run, t.Quiet) :
    cut inState depth false (run ++ rest) = (cut inState depth false rest).after run := by
  induction run with
  | nil => rfl
  | cons t more ih =>
    obtain ⟨⟨ho, hc, hs⟩, hmore⟩ := List.forall_mem_cons.mp hrun
    rw [List.cons_append, cut_token ho hc rfl, decide_eq_false hs, ih hmore]
    rfl

theorem cut_run (hrun : ∀ t ∈ run, t.Quiet) (hh : Header.isHeader (run ++ rest) = false) :
    ∃ still, cut inState depth fresh (run ++ rest) = (cut inState depth still rest).after run := by
  cases run with
  | nil => exact ⟨fresh, rfl⟩
  | cons t more =>
    obtain ⟨⟨ho, hc, hs⟩, hmore⟩ := List.forall_mem_cons.mp hrun
    refine ⟨false, ?_⟩
    rw [List.cons_append] at hh ⊢
    rw [cut_token ho hc (by rw [hh, Bool.and_false]), decide_eq_false hs, cut_quiet hmore]
    rfl

end Declaration

theorem untilBalance_token {t : Token} (ho : t.kind ≠ .openBrace) (hc : t.kind ≠ .closeBrace) (depth : Nat)
    (rest : List Token) :
    untilBalance depth (t :: rest) = (untilBalance depth rest).map fun p => (t :: p.1, p.2) := by
  rw [untilBalance.eq_def]
  dsimp only
  split
  · exact absurd ‹_› ho
  · exact absurd ‹_› hc
  · rfl

/-- A run that a body does not end in or before, by a guess or by its braces. -/
structure Passes (run : List Token) : Prop where
  cut : ∀ inState depth fresh rest, ∃ still, Declaration.cut inState (depth + 1) fresh (run ++ rest) =
    (Declaration.cut inState (depth + 1) still rest).after run
  balance : ∀ depth rest, untilBalance depth (run ++ rest) =
    (untilBalance depth rest).map fun p => (run ++ p.1, p.2)

namespace Passes

variable {run inner : List Token} {c o : Token}

open Declaration

theorem nil : Passes [] := by
  refine ⟨fun inState depth fresh rest => ⟨fresh, rfl⟩, fun depth rest => ?_⟩
  cases h : untilBalance depth rest <;> simp [h]

theorem append {a b : List Token} (ha : Passes a) (hb : Passes b) : Passes (a ++ b) := by
  constructor
  · intro inState depth fresh rest
    obtain ⟨still, hcut⟩ := ha.cut inState depth fresh (b ++ rest)
    obtain ⟨later, hcut'⟩ := hb.cut inState depth still rest
    exact ⟨later, by rw [List.append_assoc, hcut, hcut', Cut.after_append]⟩
  · intro depth rest
    rw [List.append_assoc, ha.balance, hb.balance, Option.map_map]
    simp [Function.comp_def]

theorem balance_quiet (hrun : ∀ t ∈ run, t.Quiet) (depth : Nat) (rest : List Token) :
    untilBalance depth (run ++ rest) = (untilBalance depth rest).map fun p => (run ++ p.1, p.2) := by
  induction run with
  | nil => exact nil.balance depth rest
  | cons t more ih =>
    obtain ⟨⟨ho, hc, -⟩, hmore⟩ := List.forall_mem_cons.mp hrun
    rw [List.cons_append, untilBalance_token ho hc, ih hmore, Option.map_map]
    rfl

theorem quiet (hrun : ∀ t ∈ run, t.Quiet) (hh : ∀ rest, Header.isHeader (run ++ rest) = false) : Passes run :=
  ⟨fun _ _ _ rest => cut_run hrun (hh rest), balance_quiet hrun⟩

/-- What ends with a semicolon is no header. -/
theorem semicolon {semi : Token} (hrun : ∀ t ∈ run, t.Quiet) (hs : semi.kind = .semicolon) :
    Passes (run ++ [semi]) := by
  have ho : semi.kind ≠ .openBrace := by simp [hs]
  have hc : semi.kind ≠ .closeBrace := by simp [hs]
  constructor
  · intro inState depth fresh rest
    have hlone : Header.isHeader (semi :: rest) = false := by simp [Header.isHeader, hs]
    have hnone := Header.not_isHeader_semicolon hrun hs rest
    obtain ⟨still, hcut⟩ : ∃ still, Declaration.cut inState (depth + 1) fresh (run ++ semi :: rest) =
        (Declaration.cut inState (depth + 1) still (semi :: rest)).after run := cut_run hrun hnone
    have hsemi : Declaration.cut inState (depth + 1) still (semi :: rest) =
        (Declaration.cut inState (depth + 1) true rest).after [semi] := by
      rw [cut_token ho hc (by rw [hlone, Bool.and_false]), decide_eq_true hs]
    refine ⟨true, ?_⟩
    rw [List.append_assoc, List.singleton_append, hcut, hsemi, Cut.after_append]
  · intro depth rest
    rw [List.append_assoc, List.singleton_append, balance_quiet hrun, untilBalance_token ho hc,
      Option.map_map]
    simp [Function.comp_def]

/-- What closes a parenthesis is no header. -/
theorem closeParen (h : Calm inner) (hc : c.kind = .closeParen) : Passes (inner ++ [c]) := by
  refine quiet (List.forall_mem_append.mpr ⟨h.quiet, by simp [Token.Quiet, hc]⟩) fun rest => ?_
  rw [List.append_assoc]
  exact Header.not_isHeader_closeParen h hc rest

theorem openParen (ho : o.kind = .openParen) : Passes [o] :=
  quiet (by simp [Token.Quiet, ho]) fun rest => by simp [Header.isHeader, ho]

theorem keyword {t : Token} {word : Keyword} (ht : t.kind = .keyword word) (hd : word ≠ .default)
    (hs : word ≠ .state) : Passes [t] := by
  refine quiet (by simp [Token.Quiet, ht]) fun rest => ?_
  cases word <;> simp_all [Header.isHeader]

theorem parenthesized (ho : o.kind = .openParen) (h : Calm inner) (hc : c.kind = .closeParen) :
    Passes (o :: (inner ++ [c])) :=
  (openParen ho).append (closeParen h hc)

theorem braces (ho : o.kind = .openBrace) (h : Passes inner) (hc : c.kind = .closeBrace) :
    Passes (o :: (inner ++ [c])) := by
  constructor
  · intro inState depth fresh rest
    obtain ⟨still, hcut⟩ := h.cut inState (depth + 1) true (c :: rest)
    refine ⟨true, ?_⟩
    rw [List.cons_append, List.append_assoc, List.singleton_append, cut_openBrace ho, hcut, cut_innerBrace hc,
      Cut.after_append, Cut.after_append]
    rfl
  · intro depth rest
    have hclose : untilBalance (depth + 1) (c :: rest) = (untilBalance depth rest).map fun p =>
        (c :: p.1, p.2) := by
      simp [untilBalance, hc]
    have hopen : untilBalance depth (o :: (inner ++ c :: rest)) =
        (untilBalance (depth + 1) (inner ++ c :: rest)).map fun p => (o :: p.1, p.2) := by
      simp [untilBalance, ho]
    rw [List.cons_append, List.append_assoc, List.singleton_append, hopen, h.balance, hclose, Option.map_map,
      Option.map_map]
    simp [Function.comp_def]

end Passes

theorem runsBetween_ne_nil (separator : TokenKind) (ts : List Token) : runsBetween separator ts ≠ [] := by
  fun_induction runsBetween separator ts <;> simp_all

/-- The first run is all there is, or a separator and further runs come after it. -/
theorem runsBetween_eq_cons {separator : TokenKind} {first : List Token} {more : List (List Token)}
    (h : runsBetween separator ts = first :: more) :
    (ts = first ∧ more = []) ∨
      ∃ s rest, s.kind = separator ∧ ts = first ++ s :: rest ∧ runsBetween separator rest = more := by
  induction ts generalizing first with
  | nil =>
    obtain ⟨rfl, rfl⟩ := List.cons.inj h
    exact .inl ⟨rfl, rfl⟩
  | cons t rest ih =>
    unfold runsBetween at h
    split at h
    · rename_i ht
      obtain ⟨rfl, rfl⟩ := List.cons.inj h
      exact .inr ⟨t, rest, of_decide_eq_true ht, rfl, rfl⟩
    · cases hrest : runsBetween separator rest with
      | nil => exact absurd hrest (runsBetween_ne_nil separator rest)
      | cons run runs =>
        rw [hrest] at h
        obtain ⟨rfl, rfl⟩ := List.cons.inj h
        rcases ih hrest with ⟨rfl, rfl⟩ | ⟨s, after, hs, rfl, hruns⟩
        · exact .inl ⟨rfl, rfl⟩
        · exact .inr ⟨s, after, hs, rfl, hruns⟩

namespace Grammar

variable {ts rest : List Token}

theorem Encloses.split {inner : List Token} (h : Encloses inner ts rest) :
    ∃ o c, o.kind = .openParen ∧ c.kind = .closeParen ∧ ts = o :: (inner ++ [c]) ++ rest := by
  obtain ⟨o, more, rfl, ho, hinside⟩ := h
  obtain ⟨c, hc, rfl⟩ := Bracket.inside_eq_ok hinside
  exact ⟨o, c, ho, closeParen_of_closes? ho hc, by simp⟩

theorem Encloses.passes {inner : List Token} (h : Encloses inner ts rest) (hinner : Calm inner) :
    ∃ run, ts = run ++ rest ∧ Passes run := by
  obtain ⟨o, c, ho, hc, rfl⟩ := h.split
  exact ⟨_, rfl, .parenthesized ho hinner hc⟩

/-- The header of a counted loop is three statements, the last of which the parenthesis ends. -/
theorem Encloses.passes_three {header init test step : List Token} (h : Encloses header ts rest)
    (hruns : runsBetween .semicolon header = [init, test, step]) (hinit : Calm init) (htest : Calm test)
    (hstep : Calm step) : ∃ run, ts = run ++ rest ∧ Passes run := by
  obtain ⟨o, c, ho, hc, rfl⟩ := h.split
  obtain ⟨-, hmore⟩ | ⟨s, others, hs, rfl, hothers⟩ := runsBetween_eq_cons hruns
  · cases hmore
  obtain ⟨-, hmore⟩ | ⟨s', last, hs', rfl, hlast⟩ := runsBetween_eq_cons hothers
  · cases hmore
  obtain ⟨rfl, -⟩ | ⟨_, _, -, -, hnone⟩ := runsBetween_eq_cons hlast
  · refine ⟨[o] ++ (init ++ [s]) ++ (test ++ [s']) ++ (last ++ [c]), by simp, ?_⟩
    have hhead := (Passes.openParen ho).append (.semicolon hinit.quiet hs)
    exact (hhead.append (.semicolon htest.quiet hs')).append (.closeParen hstep hc)
  · exact absurd hnone (runsBetween_ne_nil _ _)

def Phrase.Whole : Phrase → Prop
  | .stmt s => s.All .whole
  | .block ss | .body ss => Stmt.AllOf .whole ss
  | .tail t => t.All .whole

/-- A plain statement ends with its only semicolon. -/
theorem Plain.split {s : Stmt} (h : Plain ts s rest) (hw : s.All .whole) :
    ∃ run semi, (∀ t ∈ run, t.Quiet) ∧ semi.kind = .semicolon ∧ ts = run ++ [semi] ++ rest := by
  have hquiet {line : Nat} {run : List Token} (h : (Term.ofTokens line run).All .whole) :
      ∀ t ∈ run, t.Quiet :=
    (Term.calm_of_whole h).quiet
  cases h with
  | empty ht => exact ⟨[], _, by simp, ht, rfl⟩
  | declare ht hn he =>
    obtain ⟨semi, hs, rfl⟩ := he
    exact ⟨[_, _], semi, by simp [Token.Quiet, ht, hn], hs, rfl⟩
  | @declareInit t n sign run _ _ _ _ ht hn hsign _ he =>
    obtain ⟨semi, hs, rfl⟩ := he
    have hhead : ∀ u ∈ [t, n, sign], u.Quiet := by simp [Token.Quiet, ht, hn, hsign]
    exact ⟨[t, n, sign] ++ run, semi, List.forall_mem_append.mpr ⟨hhead, hquiet (hw _ rfl)⟩, hs, by simp⟩
  | @expr t run _ _ ht _ he =>
    obtain ⟨semi, hs, rfl⟩ := he
    exact ⟨t :: run, semi, hquiet hw, hs, by simp⟩
  | ret ht he =>
    obtain ⟨semi, hs, rfl⟩ := he
    exact ⟨[_], semi, by simp [Token.Quiet, ht], hs, rfl⟩
  | @retValue t run _ _ ht _ _ he =>
    obtain ⟨semi, hs, rfl⟩ := he
    have hhead : t.Quiet := by simp [Token.Quiet, ht]
    exact ⟨t :: run, semi, List.forall_mem_cons.mpr ⟨hhead, hquiet (hw _ rfl)⟩, hs, by simp⟩
  | @changeState t n _ _ _ ht hn he =>
    obtain ⟨semi, hs, rfl⟩ := he
    refine ⟨[t, n], semi, ?_, hs, rfl⟩
    have hname : Calm [n] := Header.calm_stateName (by simp [hn]) .nil
    exact List.forall_mem_cons.mpr ⟨by simp [Token.Quiet, ht], hname.quiet⟩
  | jump ht hn he =>
    obtain ⟨semi, hs, rfl⟩ := he
    exact ⟨[_, _], semi, by simp [Token.Quiet, ht, hn], hs, rfl⟩
  | breakLoop ht he | continueLoop ht he =>
    obtain ⟨semi, hs, rfl⟩ := he
    exact ⟨[_], semi, by simp [Token.Quiet, ht], hs, rfl⟩

/-- What the tokens of a phrase are: a block has a closing brace after them. -/
def Phrase.Covers (ts rest : List Token) : Phrase → Prop
  | .block _ => ∃ run close, Passes run ∧ close.kind = .closeBrace ∧ ts = run ++ close :: rest
  | .stmt _ | .body _ | .tail _ => ∃ run, ts = run ++ rest ∧ Passes run

theorem Spells.covers {stop : Nat} {p : Phrase} (h : Spells stop ts p rest) (hw : p.Whole) :
    p.Covers ts rest := by
  induction h with
  | plain h =>
    obtain ⟨run, semi, hrun, hs, rfl⟩ := h.split hw
    exact ⟨run ++ [semi], rfl, .semicolon hrun hs⟩
  | braces ht _ ih | braced ht _ ih =>
    obtain ⟨run, close, hrun, hc, rfl⟩ := ih hw
    exact ⟨_ :: (run ++ [close]), by simp, .braces ht hrun hc⟩
  | branch ht hc _ _ _ ihb iht =>
    obtain ⟨htest, hbody, htail⟩ := hw
    obtain ⟨test, rfl, htest⟩ := hc.passes (Term.calm_of_whole htest)
    obtain ⟨body, rfl, hbody⟩ := ihb hbody
    obtain ⟨tail, rfl, htail⟩ := iht htail
    have hword := Passes.keyword ht (by decide) (by decide)
    exact ⟨[_] ++ test ++ body ++ tail, by simp, ((hword.append htest).append hbody).append htail⟩
  | whileLoop ht hc _ _ ihb =>
    obtain ⟨htest, hbody⟩ := hw
    obtain ⟨test, rfl, htest⟩ := hc.passes (Term.calm_of_whole htest)
    obtain ⟨body, rfl, hbody⟩ := ihb hbody
    exact ⟨[_] ++ test ++ body, by simp,
      ((Passes.keyword ht (by decide) (by decide)).append htest).append hbody⟩
  | @forLoop t header init test step ts first rest body ht hc hh _ ihb =>
    obtain ⟨hinit, htest, hstep, hbody⟩ := hw
    have hmiddle : Calm test := by
      cases test with
      | nil => exact .nil
      | cons u us => exact Term.calm_of_whole (htest _ rfl)
    obtain ⟨run, rfl, hrun⟩ :=
      hc.passes_three hh (items_spell _ _ hinit).calm hmiddle (items_spell _ _ hstep).calm
    obtain ⟨body, rfl, hbody⟩ := ihb hbody
    exact ⟨[t] ++ run ++ body, by simp,
      ((Passes.keyword ht (by decide) (by decide)).append hrun).append hbody⟩
  | @doLoop t last _ _ us _ _ _ ht _ hl hc _ he ihb =>
    obtain ⟨hbody, htest⟩ := hw
    obtain ⟨body, rfl, hbody⟩ := ihb hbody
    obtain ⟨test, rfl, htest⟩ := hc.passes (Term.calm_of_whole htest)
    obtain ⟨semi, hs, rfl⟩ := he
    have hloop := (Passes.keyword ht (by decide) (by decide)).append hbody
    have hend := (Passes.keyword hl (by decide) (by decide)).append htest
    have hsemi : Passes ([] ++ [semi]) := .semicolon (by simp) hs
    exact ⟨[t] ++ body ++ ([last] ++ test) ++ [semi], by simp, (hloop.append hend).append hsemi⟩
  | close ht => exact ⟨[], _, .nil, ht, rfl⟩
  | more _ _ ihs ihb =>
    obtain ⟨first, rfl, hfirst⟩ := ihs hw.1
    obtain ⟨run, close, hrun, hc, rfl⟩ := ihb hw.2
    exact ⟨first ++ run, close, hfirst.append hrun, hc, by simp⟩
  | single _ _ ih => exact ih hw.1
  | done => exact ⟨[], rfl, .nil⟩
  | elseIf ht hi hc _ _ _ ihb iht =>
    obtain ⟨htest, hbody, htail⟩ := hw
    obtain ⟨test, rfl, htest⟩ := hc.passes (Term.calm_of_whole htest)
    obtain ⟨body, rfl, hbody⟩ := ihb hbody
    obtain ⟨tail, rfl, htail⟩ := iht htail
    have hwords := (Passes.keyword ht (by decide) (by decide)).append (.keyword hi (by decide) (by decide))
    exact ⟨[_] ++ [_] ++ test ++ body ++ tail, by simp, ((hwords.append htest).append hbody).append htail⟩
  | elseArm ht _ _ ih =>
    obtain ⟨body, hts, hbody⟩ := ih hw
    exact ⟨[_] ++ body, by simp [hts], (Passes.keyword ht (by decide) (by decide)).append hbody⟩

end Grammar

/-- What follows a brace and can only be a statement is taken into the body. -/
theorem Declaration.cut_ne_nil {inState : Bool} {depth : Nat} (h : continuesBody inState ts = true) :
    (cut inState depth true ts).tokens ≠ [] := by
  cases ts with
  | nil => cases h
  | cons t rest =>
    have hnone : Header.isHeader (t :: rest) = false := by
      unfold continuesBody at h
      simp only [Bool.and_eq_true, Bool.not_eq_true'] at h
      exact h.1
    unfold cut
    split
    · exact List.cons_ne_nil _ _
    · split <;> exact List.cons_ne_nil _ _
    · rw [hnone, if_neg (by simp)]
      exact List.cons_ne_nil _ _

namespace Block.Accepted

variable {b : Block}

theorem covers (h : b.Accepted) :
    ∃ run close, Passes run ∧ close.kind = .closeBrace ∧ b.tokens = run ++ [close] := by
  obtain ⟨body, hwhole, hspelled⟩ := h.spelled
  exact hspelled.covers hwhole

theorem closes (h : b.Accepted) : b.Closes := by
  obtain ⟨run, close, hrun, hc, htokens⟩ := h.covers
  intro next
  have hclose : untilBalance 0 (close :: next) = some ([close], next) := by simp [untilBalance, hc]
  rw [htokens, List.append_assoc, List.singleton_append, hrun.balance, hclose]
  rfl

/-- Before what cannot go on with it, an accepted body is cut off as it is. -/
theorem cut_eq (h : b.Accepted) {inState : Bool} {rest : List Token}
    (hrest : Declaration.continuesBody inState rest = false) :
    Declaration.cut inState 1 true (b.tokens ++ rest) = ⟨b.tokens, true, rest⟩ := by
  obtain ⟨run, close, hrun, hc, htokens⟩ := h.covers
  obtain ⟨still, hcut⟩ := hrun.cut inState 0 true (close :: rest)
  have hclose : Declaration.cut inState 1 still (close :: rest) = ⟨[close], true, rest⟩ := by
    simp [Declaration.cut, hc, hrest]
  rw [htokens, List.append_assoc, List.singleton_append, hcut, hclose]
  rfl

/-- A cut that is accepted ends with the closing brace. -/
theorem cut_closed (h : b.Accepted) {inState : Bool} {ts : List Token}
    (htokens : (Declaration.cut inState 1 true ts).tokens = b.tokens) :
    (Declaration.cut inState 1 true ts).closed = true := by
  have hts := Declaration.cut_append inState 1 true ts
  rw [htokens] at hts
  generalize (Declaration.cut inState 1 true ts).rest = rest at hts
  subst hts
  cases hgoes : Declaration.continuesBody inState rest with
  | false => rw [h.cut_eq hgoes]
  | true =>
    -- the body would have gone on behind its last token
    obtain ⟨run, close, hrun, hc, hb⟩ := h.covers
    obtain ⟨still, hcut⟩ := hrun.cut inState 0 true (close :: rest)
    have hclose : Declaration.cut inState 1 still (close :: rest) =
        (Declaration.cut inState 0 true rest).after [close] := by
      simp only [Declaration.cut, hc, hgoes]
      rfl
    rw [hb, List.append_assoc, List.singleton_append, hcut, hclose] at htokens
    have hnil : (Declaration.cut inState 0 true rest).tokens = [] := by
      simpa [Declaration.Cut.after] using htokens
    exact absurd hnil (Declaration.cut_ne_nil hgoes)

end Block.Accepted

end WorldScript
