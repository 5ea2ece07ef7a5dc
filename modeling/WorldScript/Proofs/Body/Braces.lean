import WorldScript.Proofs.Body.Lines
import WorldScript.Proofs.Body.Refinement
import WorldScript.Proofs.Body.Wholeness
import WorldScript.Proofs.Script.WellFormed

/-! # Optional braces

The body of a construct may be a single statement or statements in braces.  Braces around any of the
single statements of an accepted body lead to a body that is accepted too, with the same instructions,
the same jump targets and the same local slots.

What a statement extends to depends on what follows it, because of `else`.  So the proof goes through the
grammar: braces that are put in never come between a conditional and its `else`.
-/

namespace WorldScript

namespace Grammar

def Parenthesized (inner head : List Token) : Prop := ∀ rest, Encloses inner (head ++ rest) rest

theorem Ends.followed {run ts rest : List Token} (h : Ends run ts rest) :
    ∃ us, ts = us ++ rest ∧ ∀ more, Ends run (us ++ more) more := by
  obtain ⟨semi, hs, rfl⟩ := h
  refine ⟨run ++ [semi], by simp, fun more => ⟨semi, hs, by simp⟩⟩

theorem Encloses.followed {inner ts rest : List Token} (h : Encloses inner ts rest) :
    ∃ head, ts = head ++ rest ∧ Parenthesized inner head := by
  obtain ⟨t, more, rfl, ht, hinside⟩ := h
  obtain ⟨us, rfl, hus⟩ := Bracket.inside_followed hinside
  exact ⟨t :: us, rfl, fun rest' => ⟨t, us ++ rest', rfl, ht, hus rest'⟩⟩

theorem Plain.followed {ts rest : List Token} {s : Stmt} (h : Plain ts s rest) :
    ∃ t us, ts = t :: (us ++ rest) ∧ ∀ more, Plain (t :: (us ++ more)) s more := by
  cases h with
  | empty ht => exact ⟨_, [], rfl, fun _ => .empty ht⟩
  | @declare t n _ _ _ _ ht hn he =>
    obtain ⟨us, rfl, hus⟩ := he.followed
    exact ⟨t, n :: us, rfl, fun more => .declare ht hn (hus more)⟩
  | @declareInit t n sign _ _ _ _ _ ht hn hs hr he =>
    obtain ⟨us, rfl, hus⟩ := he.followed
    exact ⟨t, n :: sign :: us, rfl, fun more => .declareInit ht hn hs hr (hus more)⟩
  | expr ht hr he =>
    obtain ⟨us, rfl, hus⟩ := he.followed
    exact ⟨_, us, rfl, fun more => .expr ht hr (hus more)⟩
  | ret ht he =>
    obtain ⟨us, rfl, hus⟩ := he.followed
    exact ⟨_, us, rfl, fun more => .ret ht (hus more)⟩
  | retValue ht hr hne he =>
    obtain ⟨us, rfl, hus⟩ := he.followed
    exact ⟨_, us, rfl, fun more => .retValue ht hr hne (hus more)⟩
  | @changeState t n _ _ _ ht hn he =>
    obtain ⟨us, rfl, hus⟩ := he.followed
    exact ⟨t, n :: us, rfl, fun more => .changeState ht hn (hus more)⟩
  | @jump t n _ _ _ ht hn he =>
    obtain ⟨us, rfl, hus⟩ := he.followed
    exact ⟨t, n :: us, rfl, fun more => .jump ht hn (hus more)⟩
  | breakLoop ht he =>
    obtain ⟨us, rfl, hus⟩ := he.followed
    exact ⟨_, us, rfl, fun more => .breakLoop ht (hus more)⟩
  | continueLoop ht he =>
    obtain ⟨us, rfl, hus⟩ := he.followed
    exact ⟨_, us, rfl, fun more => .continueLoop ht (hus more)⟩

inductive Part where
  | stmt
  /-- Statements with the brace that closes them. -/
  | block
  | body
  /-- What follows the body of a conditional. -/
  | tail

/-- `ts` spells a part with `rest` after it, and `ts'` is `ts` with braces around some of the single
statements that are bodies of constructs, and with `rest'` after it.  Whether a statement gets braces is
chosen by the tokens from its first one on, which differ from place to place. -/
inductive Wraps (choose : List Token → Bool) :
    Part → List Token → List Token → List Token → List Token → Prop
  | plain {t : Token} {us rest rest' : List Token} {s : Stmt} (h : ∀ more, Plain (t :: (us ++ more)) s more) :
      Wraps choose .stmt (t :: (us ++ rest)) rest (t :: (us ++ rest')) rest'
  | braces {t : Token} {ts rest ts' rest' : List Token} (ht : t.kind = .openBrace)
      (hb : Wraps choose .block ts rest ts' rest') : Wraps choose .stmt (t :: ts) rest (t :: ts') rest'
  | branch {t : Token} {test head first next rest first' next' rest' : List Token}
      (ht : t.kind = .keyword .ifWord) (hc : Parenthesized test head) (hne : test ≠ [])
      (hb : Wraps choose .body first next first' next') (htail : Wraps choose .tail next rest next' rest') :
      Wraps choose .stmt (t :: (head ++ first)) rest (t :: (head ++ first')) rest'
  | whileLoop {t : Token} {test head first rest first' rest' : List Token} (ht : t.kind = .keyword .whileWord)
      (hc : Parenthesized test head) (hne : test ≠ []) (hb : Wraps choose .body first rest first' rest') :
      Wraps choose .stmt (t :: (head ++ first)) rest (t :: (head ++ first')) rest'
  | forLoop {t : Token} {header init test step head first rest first' rest' : List Token}
      (ht : t.kind = .keyword .forWord) (hc : Parenthesized header head)
      (hh : runsBetween .semicolon header = [init, test, step])
      (hb : Wraps choose .body first rest first' rest') :
      Wraps choose .stmt (t :: (head ++ first)) rest (t :: (head ++ first')) rest'
  | doLoop {t last semi : Token} {test head ts rest ts' rest' : List Token} (ht : t.kind = .keyword .doWord)
      (hb : Wraps choose .body ts (last :: (head ++ semi :: rest)) ts' (last :: (head ++ semi :: rest')))
      (hl : last.kind = .keyword .whileWord) (hc : Parenthesized test head) (hne : test ≠ [])
      (hs : semi.kind = .semicolon) : Wraps choose .stmt (t :: ts) rest (t :: ts') rest'
  | close {t : Token} {rest rest' : List Token} (ht : t.kind = .closeBrace) :
      Wraps choose .block (t :: rest) rest (t :: rest') rest'
  | more {ts next rest ts' next' rest' : List Token} (hs : Wraps choose .stmt ts next ts' next')
      (hb : Wraps choose .block next rest next' rest') : Wraps choose .block ts rest ts' rest'
  | braced {t : Token} {ts rest ts' rest' : List Token} (ht : t.kind = .openBrace)
      (hb : Wraps choose .block ts rest ts' rest') : Wraps choose .body (t :: ts) rest (t :: ts') rest'
  /-- A single statement stays as it is. -/
  | single {t : Token} {ts rest ts' rest' : List Token} (hleft : choose (t :: ts) = false)
    (ht : t.kind ≠ .openBrace)
      (hs : Wraps choose .stmt (t :: ts) rest ts' rest') : Wraps choose .body (t :: ts) rest ts' rest'
  /-- A single statement gets braces. -/
  | wrapped {t o c : Token} {ts rest ts' rest' : List Token} (hchosen : choose (t :: ts) = true)
      (ht : t.kind ≠ .openBrace) (ho : o.kind = .openBrace) (hc : c.kind = .closeBrace)
      (hs : Wraps choose .stmt (t :: ts) rest ts' (c :: rest')) :
        Wraps choose .body (t :: ts) rest (o :: ts') rest'
  | done {rest rest' : List Token} (h : ∀ t more, rest = t :: more → t.kind ≠ .keyword .elseWord) :
      Wraps choose .tail rest rest rest' rest'
  | elseIf {t i : Token} {test head first next rest first' next' rest' : List Token}
      (ht : t.kind = .keyword .elseWord) (hi : i.kind = .keyword .ifWord) (hc : Parenthesized test head)
      (hne : test ≠ []) (hb : Wraps choose .body first next first' next')
      (htail : Wraps choose .tail next rest next' rest') :
      Wraps choose .tail (t :: i :: (head ++ first)) rest (t :: i :: (head ++ first')) rest'
  | elseArm {t i : Token} {ts rest ts' rest' : List Token} (ht : t.kind = .keyword .elseWord)
      (hi : i.kind ≠ .keyword .ifWord) (hb : Wraps choose .body (i :: ts) rest ts' rest') :
      Wraps choose .tail (t :: i :: ts) rest (t :: ts') rest'

def Phrase.part : Phrase → Part
  | .stmt _ => .stmt
  | .block _ => .block
  | .body _ => .body
  | .tail _ => .tail

/-- Every choice can be made. -/
theorem Spells.wraps {stop : Nat} {ts rest : List Token} {p : Phrase} (h : Spells stop ts p rest)
    (choose : List Token → Bool) (rest' : List Token) : ∃ ts', Wraps choose p.part ts rest ts' rest' := by
  -- what follows a part is chosen for first, so that the part can be put before it
  induction h generalizing rest' with
  | plain h =>
    obtain ⟨t, us, rfl, hus⟩ := h.followed
    exact ⟨_, .plain hus⟩
  | braces ht _ ih =>
    obtain ⟨ts', hb⟩ := ih rest'
    exact ⟨_, .braces ht hb⟩
  | branch ht hc hne _ _ ihb ihtail =>
    obtain ⟨head, rfl, hhead⟩ := hc.followed
    obtain ⟨next', htail⟩ := ihtail rest'
    obtain ⟨first', hb⟩ := ihb next'
    exact ⟨_, .branch ht hhead hne hb htail⟩
  | whileLoop ht hc hne _ ih =>
    obtain ⟨head, rfl, hhead⟩ := hc.followed
    obtain ⟨first', hb⟩ := ih rest'
    exact ⟨_, .whileLoop ht hhead hne hb⟩
  | forLoop ht hc hh _ ih =>
    obtain ⟨head, rfl, hhead⟩ := hc.followed
    obtain ⟨first', hb⟩ := ih rest'
    exact ⟨_, .forLoop ht hhead hh hb⟩
  | doLoop ht _ hl hc hne he ih =>
    obtain ⟨head, rfl, hhead⟩ := hc.followed
    obtain ⟨semi, hs, rfl⟩ := he
    obtain ⟨ts', hb⟩ := ih (_ :: (head ++ semi :: rest'))
    exact ⟨_, .doLoop ht hb hl hhead hne hs⟩
  | close ht => exact ⟨_, .close ht⟩
  | more _ _ ihs ihb =>
    obtain ⟨next', hb⟩ := ihb rest'
    obtain ⟨ts', hs⟩ := ihs next'
    exact ⟨_, .more hs hb⟩
  | braced ht _ ih =>
    obtain ⟨ts', hb⟩ := ih rest'
    exact ⟨_, .braced ht hb⟩
  | @single t ts _ _ ht _ ih =>
    cases hchoose : choose (t :: ts) with
    | false =>
      obtain ⟨ts', hs⟩ := ih rest'
      exact ⟨_, .single hchoose ht hs⟩
    | true =>
      obtain ⟨ts', hs⟩ := ih (⟨.closeBrace, "\x7d", t.line⟩ :: rest')
      exact ⟨_, .wrapped hchoose ht (o := ⟨.openBrace, "\x7b", t.line⟩) rfl rfl hs⟩
  | done h => exact ⟨_, .done h⟩
  | elseIf ht hi hc hne _ _ ihb ihtail =>
    obtain ⟨head, rfl, hhead⟩ := hc.followed
    obtain ⟨next', htail⟩ := ihtail rest'
    obtain ⟨first', hb⟩ := ihb next'
    exact ⟨_, .elseIf ht hi hhead hne hb htail⟩
  | elseArm ht hi _ ih =>
    obtain ⟨ts', hb⟩ := ih rest'
    exact ⟨_, .elseArm ht hi hb⟩

def NoElse (ts : List Token) : Prop := ∀ t more, ts = t :: more → t.kind ≠ .keyword .elseWord

namespace Wraps

variable {choose : List Token → Bool} {part : Part} {ts rest ts' rest' : List Token}

theorem stmt_first (h : Wraps choose .stmt ts rest ts' rest') :
    ∃ t more more', ts = t :: more ∧ ts' = t :: more' := by
  cases h with
  | plain | braces | branch | whileLoop | forLoop | doLoop => exact ⟨_, _, _, rfl, rfl⟩

theorem first (h : Wraps choose part ts rest ts' rest') :
    (∃ t t' more more', ts = t :: more ∧ ts' = t' :: more' ∧ (t' = t ∨ t'.kind = .openBrace)) ∨
      (part = .tail ∧ ts = rest ∧ ts' = rest') := by
  cases h with
  | plain | braces | branch | whileLoop | forLoop | doLoop | close | braced | elseIf | elseArm =>
    exact .inl ⟨_, _, _, _, rfl, rfl, .inl rfl⟩
  | more hs hb =>
    obtain ⟨t, more, more', rfl, rfl⟩ := hs.stmt_first
    exact .inl ⟨_, _, _, _, rfl, rfl, .inl rfl⟩
  | single hleft ht hs =>
    obtain ⟨t, more, more', hts, rfl⟩ := hs.stmt_first
    exact .inl ⟨_, _, _, _, hts, rfl, .inl rfl⟩
  | wrapped hchosen ht ho hc hs => exact .inl ⟨_, _, _, _, rfl, rfl, .inr ho⟩
  | done h => exact .inr ⟨rfl, rfl, rfl⟩

/-- Braces that are put in bring no `else` to the front. -/
theorem noElse (h : Wraps choose part ts rest ts' rest') (hrest : NoElse rest → NoElse rest')
    (hts : NoElse ts) : NoElse ts' := by
  obtain ⟨t, t', more, more', rfl, rfl, hfirst⟩ | ⟨-, rfl, rfl⟩ := h.first
  · intro u others hu
    cases hu
    obtain rfl | ho := hfirst
    · exact hts _ _ rfl
    · rw [ho]
      decide
  · exact hrest hts

end Wraps

/-- Both runs of tokens spell the part, as statements that differ in the lines after them alone. -/
def Part.SpelledAlike (stop : Nat) (ts rest ts' rest' : List Token) : Part → Prop
  | .stmt => ∃ s s', Spells stop ts (.stmt s) rest ∧ Spells stop ts' (.stmt s') rest' ∧
    s.detached = s'.detached
  | .block => ∃ b b', Spells stop ts (.block b) rest ∧ Spells stop ts' (.block b') rest' ∧
      Stmt.allDetached b = Stmt.allDetached b'
  | .body => ∃ b b', Spells stop ts (.body b) rest ∧ Spells stop ts' (.body b') rest' ∧
      Stmt.allDetached b = Stmt.allDetached b'
  | .tail => ∃ t t', Spells stop ts (.tail t) rest ∧ Spells stop ts' (.tail t') rest' ∧
    t.detached = t'.detached

/-- Braces that are put in leave every statement what it is, as long as they bring no `else` to the rest. -/
theorem Wraps.spelledAlike {choose : List Token → Bool} {part : Part} {ts rest ts' rest' : List Token}
    (stop : Nat) (h : Wraps choose part ts rest ts' rest') (hrest : NoElse rest → NoElse rest') :
    part.SpelledAlike stop ts rest ts' rest' := by
  induction h with
  | plain h => exact ⟨_, _, .plain (h _), .plain (h _), rfl⟩
  | braces ht hb ih =>
    obtain ⟨b, b', hb, hb', hd⟩ := ih hrest
    exact ⟨_, _, .braces ht hb, .braces ht hb', congrArg Stmt.block hd⟩
  | branch ht hc hne hb htail ihb ihtail =>
    -- the body ends where the tail starts, and with braces the tail starts with no `else` that was not there
    obtain ⟨b, b', hb, hb', hd⟩ := ihb (htail.noElse hrest)
    obtain ⟨tail, tail', htail, htail', hdtail⟩ := ihtail hrest
    refine ⟨_, _, .branch ht (hc _) hne hb htail, .branch ht (hc _) hne hb' htail', ?_⟩
    simp only [Stmt.detached, hd, hdtail]
  | whileLoop ht hc hne hb ih =>
    obtain ⟨b, b', hb, hb', hd⟩ := ih hrest
    refine ⟨_, _, .whileLoop ht (hc _) hne hb, .whileLoop ht (hc _) hne hb', ?_⟩
    simp only [Stmt.detached, hd]
  | forLoop ht hc hh hb ih =>
    obtain ⟨b, b', hb, hb', hd⟩ := ih hrest
    refine ⟨_, _, .forLoop ht (hc _) hh hb, .forLoop ht (hc _) hh hb', ?_⟩
    simp only [Stmt.detached, hd]
  | @doLoop t last semi test head ts rest ts' rest' ht hb hl hc hne hs ih =>
    have hlast : NoElse (last :: (head ++ semi :: rest')) := by
      rintro u others ⟨⟩
      rw [hl]
      decide
    obtain ⟨b, b', hb, hb', hd⟩ := ih fun _ => hlast
    refine ⟨_, _, .doLoop ht hb hl (hc _) hne ⟨semi, hs, rfl⟩,
      .doLoop ht hb' hl (hc _) hne ⟨semi, hs, rfl⟩, ?_⟩
    simp only [Stmt.detached, hd]
  | close ht => exact ⟨_, _, .close ht, .close ht, rfl⟩
  | more hs hb ihs ihb =>
    obtain ⟨s, s', hs, hs', hd⟩ := ihs (hb.noElse hrest)
    obtain ⟨b, b', hb, hb', hdb⟩ := ihb hrest
    refine ⟨_, _, .more hs hb, .more hs' hb', ?_⟩
    simp only [Stmt.allDetached, hd, hdb]
  | braced ht hb ih =>
    obtain ⟨b, b', hb, hb', hd⟩ := ih hrest
    exact ⟨_, _, .braced ht hb, .braced ht hb', hd⟩
  | single hleft ht hs ih =>
    obtain ⟨s, s', hspells, hspells', hd⟩ := ih hrest
    obtain ⟨t, more, more', hts, rfl⟩ := hs.stmt_first
    cases hts
    refine ⟨_, _, .single ht hspells, .single ht hspells', ?_⟩
    simp only [Stmt.allDetached, hd]
  | @wrapped t o c ts rest ts' rest' hchosen ht ho hc hs ih =>
    -- the statement inside is followed by the new brace, so that no `else` outside can be its own
    have hclose : NoElse (c :: rest') := by
      rintro u others ⟨⟩
      rw [hc]
      decide
    obtain ⟨s, s', hs, hs', hd⟩ := ih fun _ => hclose
    refine ⟨_, _, .single ht hs, .braced ho (.more hs' (.close hc)), ?_⟩
    simp only [Stmt.allDetached, hd]
  | done h => exact ⟨_, _, .done h, .done (hrest h), rfl⟩
  | elseIf ht hi hc hne hb htail ihb ihtail =>
    obtain ⟨b, b', hb, hb', hd⟩ := ihb (htail.noElse hrest)
    obtain ⟨tail, tail', htail, htail', hdtail⟩ := ihtail hrest
    refine ⟨_, _, .elseIf ht hi (hc _) hne hb htail, .elseIf ht hi (hc _) hne hb' htail', ?_⟩
    simp only [Tail.detached, hd, hdtail]
  | elseArm ht hi hb ih =>
    obtain ⟨b, b', hspells, hspells', hd⟩ := ih hrest
    obtain ⟨j, j', more, more', hts, rfl, hfirst⟩ | ⟨hpart, -, -⟩ := hb.first
    · cases hts
      have hi' : j'.kind ≠ .keyword .ifWord := by
        obtain rfl | ho := hfirst
        · exact hi
        · rw [ho]
          decide
      refine ⟨_, _, .elseArm ht hi hspells, .elseArm ht hi' hspells', ?_⟩
      simp only [Tail.detached, hd]
    · cases hpart

end Grammar

/-- `tokens'` are the tokens of a body with braces around the chosen ones of the single statements that are
bodies of constructs. -/
def Stmt.Wrapped (choose : List Token → Bool) (tokens tokens' : List Token) : Prop :=
  Grammar.Wraps choose .block tokens [] tokens' []

theorem Stmt.Wrapped.ofTokens {choose : List Token → Bool} {tokens tokens' : List Token}
    (h : Stmt.Wrapped choose tokens tokens') (start stop : Nat) :
    Stmt.allDetached (Stmt.ofTokens start stop tokens) = Stmt.allDetached
      (Stmt.ofTokens start stop tokens') := by
  obtain ⟨b, b', hb, hb', hd⟩ := Grammar.Wraps.spelledAlike stop h id
  rw [Stmt.Spelled.ofTokens hb, Stmt.Spelled.ofTokens hb', hd]

namespace Script

/-- Optional braces do not change the code. -/
theorem bodyCode_wrapped {ctx : BodyContext} {names : Names} {params : List Param} {body : Block} {k : Chunk}
    (h : bodyCode .chunks ctx names params body = .ok k) (choose : List Token → Bool) :
    (∃ tokens, Stmt.Wrapped choose body.tokens tokens) ∧
      ∀ tokens, Stmt.Wrapped choose body.tokens tokens →
        ∃ k', bodyCode .chunks ctx names params { body with tokens } = .ok k' ∧ k'.code = k.code ∧
          k'.locals = k.locals := by
  obtain ⟨tree, -, htree⟩ := (Block.Accepted.of_bodyCode h).spelled
  refine ⟨htree.wraps choose [], fun tokens hw => ?_⟩
  have halike := bodyCode_alike ctx names params (hw.ofTokens body.openLine body.closeLine)
  rw [h] at halike
  obtain ⟨k', hk', hsame⟩ := Option.map_eq_some_iff.mp halike.symm
  obtain ⟨hcode, hlocals⟩ := Prod.mk.inj hsame
  refine ⟨k', ?_, hcode, hlocals⟩
  cases hcompiled : bodyCode .chunks ctx names params { body with tokens } with
  | error d =>
    rw [hcompiled] at hk'
    cases hk'
  | ok c =>
    rw [hcompiled] at hk'
    cases hk'
    rfl

/-- Braces around all five single statements of the sample. -/
theorem sample_wrapped :
    ∃ k tokens k',
    bodyCode .chunks Sample.bodyContext Sample.bodyNames [⟨"n", .integer⟩] Sample.body = .ok k ∧
      Stmt.Wrapped (fun _ => true) Sample.body.tokens tokens ∧
      bodyCode .chunks Sample.bodyContext Sample.bodyNames [⟨"n", .integer⟩]
        { Sample.body with tokens } = .ok k' ∧
      k'.code = k.code ∧ k'.locals = k.locals := by
  obtain ⟨k, hk⟩ := Sample.body_compiles
  obtain ⟨⟨tokens, hw⟩, hsame⟩ := bodyCode_wrapped hk fun _ => true
  obtain ⟨k', hk', hcode, hlocals⟩ := hsame tokens hw
  exact ⟨k, tokens, k', hk, hw, hk', hcode, hlocals⟩

end Script

end WorldScript
