import WorldScript.Proofs.Stmt.Execution
import WorldScript.Proofs.Stmt.Grammar
import WorldScript.Proofs.Term.Parsing

/-! # Reading finds what is spelled

Tokens that spell statements are read as just these statements, and statements that are read without a
broken leaf are spelled.  So what tokens spell is unique.
-/

namespace WorldScript

def Term.isBroken : Term → Bool
  | .broken _ => true
  | _ => false

mutual

def Stmt.unbroken : Stmt → Bool
  | .block body => Stmt.allUnbroken body
  | .branch test body tail _ => !test.isBroken && (Stmt.allUnbroken body && tail.unbroken)
  | .whileLoop test body _ _ => !test.isBroken && Stmt.allUnbroken body
  | .forLoop _ _ _ body _ _ => Stmt.allUnbroken body
  | .doLoop body test _ _ => Stmt.allUnbroken body && !test.isBroken
  | .broken _ => false
  | .empty | .declare _ _ _ _ | .expr _ _ | .ret _ _ | .changeState _ _ | .jump _ _ | .breakLoop _
  | .continueLoop _ => true
termination_by structural s => s

def Stmt.allUnbroken : List Stmt → Bool
  | [] => true
  | s :: rest => s.unbroken && Stmt.allUnbroken rest
termination_by structural ss => ss

def Tail.unbroken : Tail → Bool
  | .done _ => true
  | .elseIf test body tail _ => !test.isBroken && (Stmt.allUnbroken body && tail.unbroken)
  | .elseArm body _ _ => Stmt.allUnbroken body
termination_by structural t => t

end

namespace Names

variable {ctx : BodyContext} {n : Names}

theorem isBroken_of_expr? {t : Term} {e : Expr} (h : n.expr? ctx t = some e) : t.isBroken = false := by
  cases t with
  | broken problem => cases h
  | literal | name | call | list | angle | cast | unary | step | member | binary | assign | label
  | brokenAfter =>
    rfl

theorem inScope?_some {α : Type} {work : Names → Option (α × Names)} {r : α × Names}
    (h : n.inScope? work = some r) : ∃ inner, work n.openScope = some inner := by
  obtain ⟨inner, hi, -⟩ := Option.bind_eq_some_iff.mp h
  exact ⟨inner, hi⟩

end Names

mutual

/-- What stands for an action is not broken. -/
theorem Stmt.unbroken_of_action? {ctx : BodyContext} (s : Stmt) {n : Names} {r : Action × Names}
    (h : s.action? ctx n = some r) : s.unbroken = true := by
  cases s with
  | broken problem => cases h
  | empty | declare | expr | ret | changeState | jump | breakLoop | continueLoop => rfl
  | block body =>
    obtain ⟨_, hb⟩ := Names.inScope?_some h
    exact Stmt.allUnbroken_of_actions? body hb
  | branch test body tail line =>
    obtain ⟨e, he, h⟩ := Option.bind_eq_some_iff.mp h
    obtain ⟨_, hb, h⟩ := Option.bind_eq_some_iff.mp h
    obtain ⟨_, ht, -⟩ := Option.bind_eq_some_iff.mp h
    obtain ⟨_, hb⟩ := Names.inScope?_some hb
    simp [Stmt.unbroken, Names.isBroken_of_expr? he, Stmt.allUnbroken_of_actions? body hb,
      Tail.unbroken_of_action? tail ht]
  | whileLoop test body line after =>
    obtain ⟨e, he, h⟩ := Option.bind_eq_some_iff.mp h
    obtain ⟨_, hb, -⟩ := Option.bind_eq_some_iff.mp h
    obtain ⟨_, hb⟩ := Names.inScope?_some hb
    simp [Stmt.unbroken, Names.isBroken_of_expr? he, Stmt.allUnbroken_of_actions? body hb]
  | forLoop init test step body line after =>
    obtain ⟨_, -, h⟩ := Option.bind_eq_some_iff.mp h
    obtain ⟨_, -, h⟩ := Option.bind_eq_some_iff.mp h
    obtain ⟨_, hb, -⟩ := Option.bind_eq_some_iff.mp h
    obtain ⟨_, hb⟩ := Names.inScope?_some hb
    exact Stmt.allUnbroken_of_actions? body hb
  | doLoop body test line last =>
    obtain ⟨_, hb, h⟩ := Option.bind_eq_some_iff.mp h
    obtain ⟨e, he, -⟩ := Option.bind_eq_some_iff.mp h
    obtain ⟨_, hb⟩ := Names.inScope?_some hb
    simp [Stmt.unbroken, Names.isBroken_of_expr? he, Stmt.allUnbroken_of_actions? body hb]

theorem Stmt.allUnbroken_of_actions? {ctx : BodyContext} (body : List Stmt) {n : Names} {r : Action × Names}
    (h : Stmt.actions? ctx body n = some r) : Stmt.allUnbroken body = true := by
  cases body with
  | nil => rfl
  | cons s rest =>
    obtain ⟨_, hs, h⟩ := Option.bind_eq_some_iff.mp h
    obtain ⟨_, hr, -⟩ := Option.bind_eq_some_iff.mp h
    simp [Stmt.allUnbroken, Stmt.unbroken_of_action? s hs, Stmt.allUnbroken_of_actions? rest hr]

theorem Tail.unbroken_of_action? {ctx : BodyContext} (tail : Tail) {n : Names} {r : Action × Names}
    (h : tail.action? ctx n = some r) : tail.unbroken = true := by
  cases tail with
  | done after => rfl
  | elseIf test body rest line =>
    obtain ⟨e, he, h⟩ := Option.bind_eq_some_iff.mp h
    obtain ⟨_, hb, h⟩ := Option.bind_eq_some_iff.mp h
    obtain ⟨_, ht, -⟩ := Option.bind_eq_some_iff.mp h
    obtain ⟨_, hb⟩ := Names.inScope?_some hb
    simp [Tail.unbroken, Names.isBroken_of_expr? he, Stmt.allUnbroken_of_actions? body hb,
      Tail.unbroken_of_action? rest ht]
  | elseArm body line after =>
    obtain ⟨_, hb⟩ := Names.inScope?_some h
    exact Stmt.allUnbroken_of_actions? body hb

end

namespace Grammar

variable {lines : BodyLines} {after : String} {depth line : Nat} {t : Token} {rest ts : List Token} {s : Stmt}

theorem untilSemicolon_cons
    (h : t.kind ≠ .openBrace ∧ t.kind ≠ .closeBrace ∧ (t.kind = .semicolon → depth ≠ 0)) :
    untilSemicolon lines after depth (t :: rest) =
      (untilSemicolon lines after (depthAfter depth t) rest).map fun (run, next) => (t :: run, next) := by
  obtain ⟨hopen, hclose, hsemi⟩ := h
  rw [untilSemicolon, depthAfter]
  cases hk : t.kind with
  | openBrace => exact absurd hk hopen
  | closeBrace => exact absurd hk hclose
  | semicolon => exact if_neg (hsemi hk)
  | identifier | keyword | typeName | integer | float | string | operator | openParen
  | closeParen | openBracket
  | closeBracket | comma => rfl

theorem untilSemicolon_of_run {run : List Token} (hr : IsRun depth run) (he : Ends run ts rest) :
    untilSemicolon lines after depth ts = .ok (run, rest) := by
  obtain ⟨semi, hs, rfl⟩ := he
  induction run generalizing depth with
  | nil =>
    obtain rfl : depth = 0 := hr
    simp [untilSemicolon, hs]
  | cons t run ih =>
    obtain ⟨hopen, hclose, hsemi, hrun⟩ := hr
    rw [List.cons_append, untilSemicolon_cons ⟨hopen, hclose, hsemi⟩, ih hrun]
    rfl

/-- What is read up to a semicolon is a run that the semicolon ends. -/
theorem run_of_untilSemicolon {run : List Token} (h : untilSemicolon lines after depth ts = .ok (run, rest)) :
    IsRun depth run ∧ Ends run ts rest := by
  induction ts generalizing depth run with
  | nil => cases h
  | cons t ts ih =>
    by_cases hk : t.kind ≠ .openBrace ∧ t.kind ≠ .closeBrace ∧ (t.kind = .semicolon → depth ≠ 0)
    · rw [untilSemicolon_cons hk] at h
      obtain ⟨⟨more, next⟩, hmore, heq⟩ := ok_of_map_ok h
      cases heq
      obtain ⟨hr, semi, hs, rfl⟩ := ih hmore
      exact ⟨⟨hk.1, hk.2.1, hk.2.2, hr⟩, semi, hs, rfl⟩
    · unfold untilSemicolon at h
      cases hkind : t.kind with
      | openBrace => simp [hkind] at h
      | closeBrace => simp [hkind] at h
      | semicolon =>
        have hd : depth = 0 := by simpa [hkind] using hk
        simp only [hkind, hd, if_true] at h
        cases h
        exact ⟨hd, t, hkind, rfl⟩
      | identifier | keyword | typeName | integer | float | string | operator | openParen | closeParen
      | openBracket | closeBracket | comma => simp [hkind] at hk

theorem semicolon_iff : semicolon lines after ts = .ok rest ↔ Ends [] ts rest := by
  unfold semicolon Ends
  cases ts with
  | nil => simp
  | cons t more =>
    by_cases ht : t.kind = .semicolon
    · simp [Token.is, ht]
    · simp [Token.is, ht]

theorem parenthesized_iff {construct : Construct} {inner : List Token} :
    parenthesized lines construct ts = .ok (inner, rest) ↔ Encloses inner ts rest := by
  unfold parenthesized Encloses
  cases ts with
  | nil => simp
  | cons t more =>
    by_cases ht : t.kind = .openParen
    · simp [Token.is, ht]
    · simp [Token.is, ht]

theorem runStatement_iff {make : List Token → Stmt} :
    runStatement lines after make ts = .ok (s, rest) ↔ ∃ run, IsRun 0 run ∧ Ends run ts rest ∧
      make run = s := by
  constructor
  · intro h
    obtain ⟨⟨run, next⟩, hr, heq⟩ := ok_of_map_ok h
    cases heq
    obtain ⟨hrun, he⟩ := run_of_untilSemicolon hr
    exact ⟨run, hrun, he, rfl⟩
  · rintro ⟨run, hrun, he, rfl⟩
    rw [runStatement, untilSemicolon_of_run hrun he]
    rfl

theorem closedStatement_iff {r : Stmt} :
    closedStatement lines after s ts = .ok (r, rest) ↔ Ends [] ts rest ∧ s = r := by
  constructor
  · intro h
    obtain ⟨next, hn, heq⟩ := ok_of_map_ok h
    cases heq
    exact ⟨semicolon_iff.mp hn, rfl⟩
  · rintro ⟨he, rfl⟩
    rw [closedStatement, semicolon_iff.mpr he]
    rfl

theorem identifier_of {name : String} (h : t.identifier? = some name) : t.kind = .identifier name := by
  unfold Token.identifier? at h
  split at h
  · rename_i found hk
    rw [hk, Option.some.inj h]
  · cases h

/-- A statement without statements inside it is read as it is spelled. -/
theorem plainStatement_of_plain (h : Plain (t :: ts) s rest) : plainStatement lines t ts = .ok (s, rest) := by
  cases h with
  | empty ht => simp [plainStatement, ht]
  | declare ht hn he =>
    obtain ⟨semi, hs, rfl⟩ := he
    simp [plainStatement, ht, declaration, Token.identifier?, hn, Token.is, hs]
  | @declareInit _ n sign run ts _ ty name ht hn hs hr he =>
    have hrun : runStatement lines "variable declaration"
        (fun init => .declare ty name (some (.ofTokens t.line init)) t.line) ts =
        .ok (.declare ty name (some (.ofTokens t.line run)) t.line, rest) :=
          runStatement_iff.mpr ⟨run, hr, he, rfl⟩
    simp [plainStatement, ht, declaration, Token.identifier?, hn, Token.is, Token.isSymbol, hs, hrun]
  | @expr _ run ts _ ht hr he =>
    obtain ⟨semi, hs, rfl⟩ := he
    have hrun : runStatement lines "expression" (fun run => .expr (.ofTokens t.line run) t.line)
        (t :: (run ++ semi :: rest)) = .ok (.expr (.ofTokens t.line (t :: run)) t.line, rest) :=
      runStatement_iff.mpr ⟨t :: run, hr, ⟨semi, hs, rfl⟩, rfl⟩
    unfold plainStatement
    unfold startsExpression at ht
    cases hk : t.kind with
    | keyword | typeName | semicolon | openBrace => simp [hk] at ht
    | identifier | integer | float | string | operator | openParen | closeParen | openBracket | closeBracket
    | closeBrace | comma => exact hrun
  | ret ht he =>
    simp only [plainStatement, ht, returning]
    exact runStatement_iff.mpr ⟨[], rfl, he, rfl⟩
  | retValue ht hr hne he =>
    simp only [plainStatement, ht, returning]
    exact runStatement_iff.mpr ⟨_, hr, he, by simp [hne]⟩
  | changeState ht hn he =>
    simp [plainStatement, ht, changing, hn, closedStatement_iff, he]
  | jump ht hn he =>
    simp [plainStatement, ht, jumping, Token.identifier?, hn, closedStatement_iff, he]
  | breakLoop ht he => simp [plainStatement, ht, closedStatement_iff, he]
  | continueLoop ht he => simp [plainStatement, ht, closedStatement_iff, he]

theorem plain_of_declaration {ty : Ty} (ht : t.kind = .typeName ty)
    (h : declaration lines ty t.line ts = .ok (s, rest)) : Plain (t :: ts) s rest := by
  unfold declaration at h
  cases ts with
  | nil => cases h
  | cons n more =>
    cases hn : n.identifier? with
    | none =>
      simp only [hn] at h
      cases h
    | some name =>
      simp only [hn] at h
      have hname : n.kind = .identifier name := identifier_of hn
      cases more with
      | nil => cases h
      | cons sign ts =>
        by_cases hsemi : sign.is .semicolon = true
        · simp only [if_pos hsemi] at h
          cases h
          exact .declare ht hname ⟨sign, by simpa [Token.is] using hsemi, rfl⟩
        · by_cases hassign : sign.isSymbol .assign = true
          · simp only [if_neg hsemi, if_pos hassign] at h
            obtain ⟨run, hr, he, rfl⟩ := runStatement_iff.mp h
            exact .declareInit ht hname (by simpa [Token.isSymbol, Token.is] using hassign) hr he
          · simp only [if_neg hsemi, if_neg hassign] at h
            cases h

theorem plain_of_returning (ht : t.kind = .keyword .returnWord)
    (h : returning lines t.line ts = .ok (s, rest)) : Plain (t :: ts) s rest := by
  obtain ⟨run, hr, he, rfl⟩ := runStatement_iff.mp h
  cases run with
  | nil => exact .ret ht he
  | cons u more => exact .retValue ht hr (List.cons_ne_nil u more) he

theorem plain_of_changing (ht : t.kind = .keyword .state) (h : changing lines t.line ts = .ok (s, rest)) :
    Plain (t :: ts) s rest := by
  unfold changing at h
  cases ts with
  | nil => cases h
  | cons n more =>
    cases hn : n.stateName? with
    | none =>
      simp only [hn] at h
      cases h
    | some name =>
      simp only [hn] at h
      obtain ⟨he, rfl⟩ := closedStatement_iff.mp h
      exact .changeState ht hn he

theorem plain_of_jumping (ht : t.kind = .keyword .jump) (h : jumping lines t.line ts = .ok (s, rest)) :
    Plain (t :: ts) s rest := by
  unfold jumping at h
  cases ts with
  | nil => cases h
  | cons n more =>
    cases hn : n.identifier? with
    | none =>
      simp only [hn] at h
      cases h
    | some name =>
      simp only [hn] at h
      obtain ⟨he, rfl⟩ := closedStatement_iff.mp h
      exact .jump ht (identifier_of hn) he

def startsConstruct (t : Token) : Bool :=
  match t.kind with
  | .openBrace | .keyword .ifWord | .keyword .whileWord | .keyword .forWord | .keyword .doWord
  | .keyword .elseWord => true
  | _ => false

/-- What is read as such a statement is spelled by the tokens. -/
theorem plain_of_plainStatement (ht : startsConstruct t = false)
    (h : plainStatement lines t ts = .ok (s, rest)) : Plain (t :: ts) s rest := by
  unfold plainStatement at h
  unfold startsConstruct at ht
  have hexpr (hs : startsExpression t = true)
      (h : runStatement lines "expression" (fun run => .expr (.ofTokens t.line run) t.line) (t :: ts) =
        .ok (s, rest)) : Plain (t :: ts) s rest := by
    obtain ⟨run, hr, ⟨semi, hsemi, heq⟩, rfl⟩ := runStatement_iff.mp h
    cases run with
    | nil =>
      cases heq
      simp [startsExpression, hsemi] at hs
    | cons u more =>
      cases heq
      exact .expr hs hr ⟨semi, hsemi, rfl⟩
  cases hk : t.kind with
  | openBrace => simp [hk] at ht
  | semicolon =>
    simp only [hk] at h
    cases h
    exact .empty hk
  | typeName ty =>
    simp only [hk] at h
    exact plain_of_declaration hk h
  | keyword word =>
    cases word with
    | ifWord | whileWord | forWord | doWord | elseWord => simp [hk] at ht
    | default =>
      simp only [hk] at h
      cases h
    | returnWord =>
      simp only [hk] at h
      exact plain_of_returning hk h
    | state =>
      simp only [hk] at h
      exact plain_of_changing hk h
    | jump =>
      simp only [hk] at h
      exact plain_of_jumping hk h
    | breakWord =>
      simp only [hk] at h
      obtain ⟨he, rfl⟩ := closedStatement_iff.mp h
      exact .breakLoop hk he
    | continueWord =>
      simp only [hk] at h
      obtain ⟨he, rfl⟩ := closedStatement_iff.mp h
      exact .continueLoop hk he
  | identifier | integer | float | string | operator | openParen | closeParen | openBracket | closeBracket
  | closeBrace | comma =>
    simp only [hk] at h
    exact hexpr (by simp [startsExpression, hk]) h

section Equations

variable {inside : Construct} {t : Token} {ts : List Token}

theorem statement_plain (ht : startsConstruct t = false) :
    (statement lines inside t ts).read = match plainStatement lines t ts with
      | .error d => (.broken d, [])
      | .ok (s, rest) => (s, rest) := by
  rw [statement]
  unfold startsConstruct at ht
  split
  iterate 6
    · rename_i hk
      simp [hk] at ht
  · split
    · rename_i h
      rw [h]
      rfl
    · rename_i h
      simp only [Parsed.read, h]

theorem statement_braces (ht : t.kind = .openBrace) : (statement lines inside t ts).read =
    let body := (braced lines .block t.line ts).read
    (.block body.1, body.2) := by
  rw [statement]
  simp only [ht]
  rfl

theorem statement_branch (ht : t.kind = .keyword .ifWord) :
    (statement lines inside t ts).read = match parenthesized lines .ifArm ts with
      | .error d => (.broken d, [])
      | .ok (test, first) =>
        let body := (bodyOf lines .ifArm t.line first).read
        let tail := (conditionalTail lines body.2).read
        (.branch (conditionTerm t.line test) body.1 tail.1 t.line, tail.2) := by
  rw [statement]
  simp only [ht]
  split
  · rename_i h
    rw [h]
    rfl
  · rename_i h
    simp only [Parsed.read, h]

theorem statement_whileLoop (ht : t.kind = .keyword .whileWord) :
    (statement lines inside t ts).read = match parenthesized lines .whileLoop ts with
      | .error d => (.broken d, [])
      | .ok (test, first) =>
        let body := (bodyOf lines .whileLoop t.line first).read
        (.whileLoop (conditionTerm t.line test) body.1 t.line (firstLine lines.stop body.2), body.2) := by
  rw [statement]
  simp only [ht]
  split
  · rename_i h
    rw [h]
    rfl
  · rename_i h
    simp only [Parsed.read, h]

theorem statement_forLoop (ht : t.kind = .keyword .forWord) :
    (statement lines inside t ts).read = match parenthesized lines .forLoop ts with
      | .error d => (.broken d, [])
      | .ok (header, first) =>
        match runsBetween .semicolon header with
        | [init, test, step] =>
          let body := (bodyOf lines .forLoop t.line first).read
          (.forLoop (Term.listOfTokens t.line init)
            (if test.isEmpty then none else some (.ofTokens t.line test)) (Term.listOfTokens t.line step)
            body.1 t.line (firstLine lines.stop body.2), body.2)
        | _ => (.broken (.syntactic t.line .expectedForHeader), []) := by
  rw [statement]
  simp only [ht]
  split
  · rename_i h
    rw [h]
    rfl
  · rename_i header first h
    simp only [h]
    rcases runsBetween .semicolon header with _ | ⟨init, _ | ⟨test, _ | ⟨step, _ | ⟨more, rest⟩⟩⟩⟩
    · rfl
    · rfl
    · rfl
    · rfl
    · rfl

theorem statement_doLoop (ht : t.kind = .keyword .doWord) :
    (statement lines inside t ts).read =
      let body := (bodyOf lines .doLoop t.line ts).read
      let test := (loopTest lines body.2).read
      (.doLoop body.1 test.1 t.line (firstLine lines.stop body.2), test.2) := by
  rw [statement]
  simp only [ht]
  rfl

theorem statement_else (ht : t.kind = .keyword .elseWord) : (statement lines inside t ts).read =
    (.broken (.syntactic t.line (.loneElse inside)), []) := by
  rw [statement]
  simp only [ht]
  rfl

theorem closingTest_cons : (closingTest lines (t :: ts)).map Parsed.read =
    if t.isKeyword .whileWord then
      match parenthesized lines .doLoop ts with
      | .error d => .error d
      | .ok (test, next) =>
        match semicolon lines "\"do … while\" condition" next with
        | .error d => .error d
        | .ok rest => .ok (conditionTerm t.line test, rest)
    else .error (.syntactic t.line .expectedWhile) := by
  by_cases hw : t.isKeyword .whileWord = true
  · simp only [closingTest, if_pos hw]
    split
    · rename_i h
      rw [h]
      rfl
    · rename_i h
      simp only [h]
      split
      · rename_i hs
        simp only [hs]
        rfl
      · rename_i hs
        simp only [hs]
        rfl
  · simp only [closingTest, if_neg hw]
    rfl

theorem loopTest_cons : (loopTest lines (t :: ts)).read =
    if t.isKeyword .whileWord then
      match parenthesized lines .doLoop ts with
      | .error d => (.broken d, [])
      | .ok (test, next) =>
        match semicolon lines "\"do … while\" condition" next with
        | .error d => (.broken d, [])
        | .ok rest => (conditionTerm t.line test, rest)
    else (.broken (.syntactic t.line .expectedWhile), []) := by
  have hread : (loopTest lines (t :: ts)).read = match (closingTest lines (t :: ts)).map Parsed.read with
      | .error d => (.broken d, [])
      | .ok r => r := by
    unfold loopTest
    cases closingTest lines (t :: ts) <;> rfl
  rw [hread, closingTest_cons]
  by_cases hw : t.isKeyword .whileWord = true
  · rw [if_pos hw, if_pos hw]
    cases parenthesized lines .doLoop ts with
    | error d => rfl
    | ok header =>
      obtain ⟨test, next⟩ := header
      dsimp only
      cases semicolon lines "\"do … while\" condition" next <;> rfl
  · rw [if_neg hw, if_neg hw]

variable {construct : Construct} {line : Nat}

theorem braced_close (ht : t.kind = .closeBrace) :
    (braced lines construct line (t :: ts)).read = ([], ts) := by
  rw [braced]
  simp only [Token.is, ht]
  rfl

theorem braced_more (ht : t.kind ≠ .closeBrace) :
    (braced lines construct line (t :: ts)).read =
      let first := (statement lines construct t ts).read
      let others := (braced lines construct line first.2).read
      (first.1 :: others.1, others.2) := by
  rw [braced]
  simp only [Token.is, ht]
  rfl

theorem bodyOf_braced (ht : t.kind = .openBrace) :
    (bodyOf lines construct line (t :: ts)).read = (braced lines construct line ts).read := by
  rw [bodyOf]
  simp only [Token.is, ht]
  rfl

theorem bodyOf_single (ht : t.kind ≠ .openBrace) (hc : t.kind ≠ .closeBrace) :
    (bodyOf lines construct line (t :: ts)).read =
      let first := (statement lines construct t ts).read
      ([first.1], first.2) := by
  rw [bodyOf]
  simp only [Token.is, ht, hc]
  rfl

theorem conditionalTail_done (h : ∀ t rest, ts = t :: rest → t.kind ≠ .keyword .elseWord) :
    (conditionalTail lines ts).read = (.done (firstLine lines.stop ts), ts) := by
  cases ts with
  | nil =>
    rw [conditionalTail]
    rfl
  | cons t rest =>
    have ht : t.kind ≠ .keyword .elseWord := h t rest rfl
    rw [conditionalTail.eq_def]
    simp only [Token.isKeyword, Token.is, ht]
    rfl

/-- An `else` at the very end lacks its statement. -/
theorem conditionalTail_lone (ht : t.kind = .keyword .elseWord) : (conditionalTail lines [t]).read =
    (.elseArm [.broken (.syntactic t.line (.missingStatement .elseArm))] t.line lines.stop, []) := by
  rw [conditionalTail.eq_def]
  simp only [Token.isKeyword, Token.is, ht]
  rw [bodyOf]
  rfl

theorem conditionalTail_elseIf {i : Token} (ht : t.kind = .keyword .elseWord)
    (hi : i.kind = .keyword .ifWord) :
    (conditionalTail lines (t :: i :: ts)).read = match parenthesized lines .elseIfArm ts with
      | .error d => (.elseIf (.broken d) [] (.done t.line) t.line, [])
      | .ok (test, first) =>
        let body := (bodyOf lines .elseIfArm t.line first).read
        let tail := (conditionalTail lines body.2).read
        (.elseIf (conditionTerm t.line test) body.1 tail.1 t.line, tail.2) := by
  rw [conditionalTail]
  simp only [Token.isKeyword, Token.is, ht, hi, decide_true, if_true]
  split
  · rename_i h
    rw [h]
    rfl
  · rename_i h
    simp only [Parsed.read, h]

theorem conditionalTail_elseArm {i : Token} (ht : t.kind = .keyword .elseWord)
    (hi : i.kind ≠ .keyword .ifWord) :
    (conditionalTail lines (t :: i :: ts)).read =
      let body := (bodyOf lines .elseArm t.line (i :: ts)).read
      (.elseArm body.1 t.line (firstLine lines.stop body.2), body.2) := by
  rw [conditionalTail]
  simp only [Token.isKeyword, Token.is, ht, hi]
  rfl

end Equations

theorem Plain.starts (h : Plain (t :: ts) s rest) : startsConstruct t = false ∧ t.kind ≠ .closeBrace := by
  cases h with
  | empty ht | declare ht | declareInit ht | ret ht | retValue ht | changeState ht | jump ht | breakLoop ht
  | continueLoop ht => simp [startsConstruct, ht]
  | expr ht hr =>
    refine ⟨?_, hr.2.1⟩
    unfold startsExpression at ht
    unfold startsConstruct
    cases hk : t.kind with
    | keyword | typeName | semicolon | openBrace => simp [hk] at ht
    | identifier | integer | float | string | operator | openParen | closeParen | openBracket | closeBracket
    | closeBrace | comma => rfl

def Reads (lines : BodyLines) (ts : List Token) (p : Phrase) (rest : List Token) : Prop :=
  match p with
  | .stmt s => ∃ t more, ts = t :: more ∧ t.kind ≠ .closeBrace ∧
      ∀ inside, (statement lines inside t more).read = (s, rest)
  | .block body => ∀ construct line, (braced lines construct line ts).read = (body, rest)
  | .body body => ∀ construct line, (bodyOf lines construct line ts).read = (body, rest)
  | .tail tail => (conditionalTail lines ts).read = (tail, rest)

theorem conditionTerm_of_ne {test : List Token} (h : test ≠ []) :
    conditionTerm line test = .ofTokens line test := by
  simp [conditionTerm, h]

/-- What tokens spell is read from them. -/
theorem Spells.reads {p : Phrase} (h : Spells lines.stop ts p rest) : Reads lines ts p rest := by
  induction h with
  | @plain ts rest s h =>
    cases ts with
    | nil => cases h
    | cons t ts =>
      refine ⟨t, ts, rfl, h.starts.2, fun inside => ?_⟩
      rw [statement_plain h.starts.1, plainStatement_of_plain h]
  | braces ht _ ih =>
    refine ⟨_, _, rfl, by simp [ht], fun inside => ?_⟩
    rw [statement_braces ht, ih]
  | branch ht hc hne _ _ ihb iht =>
    refine ⟨_, _, rfl, by simp [ht], fun inside => ?_⟩
    rw [statement_branch ht, parenthesized_iff.mpr hc]
    dsimp only
    rw [ihb .ifArm _, iht, conditionTerm_of_ne hne]
  | whileLoop ht hc hne _ ihb =>
    refine ⟨_, _, rfl, by simp [ht], fun inside => ?_⟩
    rw [statement_whileLoop ht, parenthesized_iff.mpr hc]
    simp only [ihb .whileLoop _, conditionTerm_of_ne hne]
  | forLoop ht hc hh _ ihb =>
    refine ⟨_, _, rfl, by simp [ht], fun inside => ?_⟩
    rw [statement_forLoop ht, parenthesized_iff.mpr hc]
    simp only [hh, ihb .forLoop _]
  | @doLoop t last test ts us next rest body ht _ hl hc hne he ihb =>
    refine ⟨_, _, rfl, by simp [ht], fun inside => ?_⟩
    have htest : (loopTest lines (last :: us)).read = (.ofTokens last.line test, rest) := by
      rw [loopTest_cons, parenthesized_iff.mpr hc]
      simp only [Token.isKeyword, Token.is, hl, decide_true, if_true, semicolon_iff.mpr he,
        conditionTerm_of_ne hne]
    rw [statement_doLoop ht, ihb .doLoop t.line]
    simp only [htest]
    rfl
  | close ht => exact fun _ _ => braced_close ht
  | more _ _ ihs ihb =>
    intro construct line
    obtain ⟨t, more, rfl, hk, hs⟩ := ihs
    rw [braced_more hk, hs construct]
    simp only [ihb construct line]
  | braced ht _ ih => exact fun construct line => (bodyOf_braced ht).trans (ih construct line)
  | single ht _ ih =>
    intro construct line
    obtain ⟨t, more, heq, hk, hs⟩ := ih
    cases heq
    rw [bodyOf_single ht hk, hs construct]
  | done h => exact conditionalTail_done h
  | elseIf ht hi hc hne _ _ ihb iht =>
    change Parsed.read _ = _
    rw [conditionalTail_elseIf ht hi, parenthesized_iff.mpr hc]
    dsimp only
    rw [ihb .elseIfArm _, iht, conditionTerm_of_ne hne]
  | elseArm ht hi _ ihb =>
    change Parsed.read _ = _
    rw [conditionalTail_elseArm ht hi, ihb .elseArm _]

theorem Parsed.read_le {α : Type} {p : Parsed α ts} {a : α} (h : p.read = (a, rest)) :
    rest.length ≤ ts.length := by
  obtain ⟨-, rfl⟩ := Prod.mk.inj h
  exact p.rest_le

theorem condition_of_unbroken {test : List Token} (h : (conditionTerm line test).isBroken = false) :
    test ≠ [] := by
  rintro rfl
  cases h

/-- The test behind a body that is read is spelled in full. -/
theorem loopTest_spells {test : Term} (h : (loopTest lines ts).read = (test, rest))
    (hb : test.isBroken = false) :
    ∃ last us inner next, ts = last :: us ∧ last.kind = .keyword .whileWord ∧
      Encloses inner us next ∧ inner ≠ [] ∧ Ends [] next rest ∧ test = .ofTokens last.line inner := by
  cases ts with
  | nil =>
    cases h
    cases hb
  | cons last us =>
    rw [loopTest_cons] at h
    by_cases hw : last.isKeyword .whileWord = true
    · rw [if_pos hw] at h
      cases hp : parenthesized lines .doLoop us with
      | error d =>
        simp only [hp] at h
        cases h
        cases hb
      | ok found =>
        obtain ⟨inner, next⟩ := found
        simp only [hp] at h
        cases hs : semicolon lines "\"do … while\" condition" next with
        | error d =>
          simp only [hs] at h
          cases h
          cases hb
        | ok after =>
          simp only [hs] at h
          cases h
          have hne : inner ≠ [] := condition_of_unbroken hb
          exact ⟨last, us, inner, next, rfl, by simpa [Token.isKeyword, Token.is] using hw,
            parenthesized_iff.mp hp, hne, semicolon_iff.mp hs, conditionTerm_of_ne hne⟩
    · rw [if_neg hw] at h
      cases h
      cases hb

/-- Bodies of at most `n` tokens that are read without a broken leaf are spelled. -/
def BodiesSpelled (lines : BodyLines) (n : Nat) : Prop :=
  ∀ construct line ts body rest, ts.length ≤ n → (bodyOf lines construct line ts).read = (body, rest) →
    Stmt.allUnbroken body = true → Spells lines.stop ts (.body body) rest

def TailsSpelled (lines : BodyLines) (n : Nat) : Prop :=
  ∀ ts tail rest, ts.length ≤ n → (conditionalTail lines ts).read = (tail, rest) → tail.unbroken = true →
    Spells lines.stop ts (.tail tail) rest

section Constructs

variable {inside : Construct} {t : Token} {ts rest : List Token} {s : Stmt}

theorem plain_spells (ht : startsConstruct t = false) (h : (statement lines inside t ts).read = (s, rest))
    (hs : s.unbroken = true) : Spells lines.stop (t :: ts) (.stmt s) rest := by
  rw [statement_plain ht] at h
  cases hp : plainStatement lines t ts with
  | error d =>
    simp only [hp] at h
    cases h
    cases hs
  | ok found =>
    simp only [hp] at h
    cases h
    exact .plain (plain_of_plainStatement ht hp)

theorem branch_spells (ht : t.kind = .keyword .ifWord) (h : (statement lines inside t ts).read = (s, rest))
    (hs : s.unbroken = true) (hbodies : BodiesSpelled lines ts.length)
    (htails : TailsSpelled lines ts.length) : Spells lines.stop (t :: ts) (.stmt s) rest := by
  rw [statement_branch ht] at h
  cases hp : parenthesized lines .ifArm ts with
  | error d =>
    simp only [hp] at h
    cases h
    cases hs
  | ok found =>
    obtain ⟨test, first⟩ := found
    have hlt := parenthesized_length hp
    rcases hb : (bodyOf lines .ifArm t.line first).read with ⟨body, next⟩
    have hle := Parsed.read_le hb
    rcases htail : (conditionalTail lines next).read with ⟨tail, after⟩
    rw [hp] at h
    dsimp only at h
    rw [hb, htail] at h
    cases h
    simp only [Stmt.unbroken, Bool.and_eq_true, Bool.not_eq_true'] at hs
    obtain ⟨htest, hbody, htl⟩ := hs
    have hne : test ≠ [] := condition_of_unbroken htest
    rw [conditionTerm_of_ne hne]
    exact .branch ht (parenthesized_iff.mp hp) hne (hbodies _ _ first body next (by omega) hb hbody)
      (htails next tail _ (by omega) htail htl)

theorem whileLoop_spells (ht : t.kind = .keyword .whileWord)
    (h : (statement lines inside t ts).read = (s, rest)) (hs : s.unbroken = true)
    (hbodies : BodiesSpelled lines ts.length) : Spells lines.stop (t :: ts) (.stmt s) rest := by
  rw [statement_whileLoop ht] at h
  cases hp : parenthesized lines .whileLoop ts with
  | error d =>
    simp only [hp] at h
    cases h
    cases hs
  | ok found =>
    obtain ⟨test, first⟩ := found
    have hlt := parenthesized_length hp
    rcases hb : (bodyOf lines .whileLoop t.line first).read with ⟨body, next⟩
    rw [hp] at h
    dsimp only at h
    rw [hb] at h
    cases h
    simp only [Stmt.unbroken, Bool.and_eq_true, Bool.not_eq_true'] at hs
    have hne : test ≠ [] := condition_of_unbroken hs.1
    rw [conditionTerm_of_ne hne]
    exact .whileLoop ht (parenthesized_iff.mp hp) hne (hbodies _ _ first body next (by omega) hb hs.2)

theorem forLoop_spells (ht : t.kind = .keyword .forWord) (h : (statement lines inside t ts).read = (s, rest))
    (hs : s.unbroken = true) (hbodies : BodiesSpelled lines ts.length) :
    Spells lines.stop (t :: ts) (.stmt s) rest := by
  rw [statement_forLoop ht] at h
  cases hp : parenthesized lines .forLoop ts with
  | error d =>
    simp only [hp] at h
    cases h
    cases hs
  | ok found =>
    obtain ⟨header, first⟩ := found
    have hlt := parenthesized_length hp
    rcases hb : (bodyOf lines .forLoop t.line first).read with ⟨body, next⟩
    rw [hp] at h
    dsimp only at h
    split at h
    · rename_i hh
      rw [hb] at h
      cases h
      exact .forLoop ht (parenthesized_iff.mp hp) hh (hbodies _ _ first body next (by omega) hb hs)
    · cases h
      cases hs

theorem doLoop_spells (ht : t.kind = .keyword .doWord) (h : (statement lines inside t ts).read = (s, rest))
    (hs : s.unbroken = true) (hbodies : BodiesSpelled lines ts.length) :
    Spells lines.stop (t :: ts) (.stmt s) rest := by
  rw [statement_doLoop ht] at h
  rcases hb : (bodyOf lines .doLoop t.line ts).read with ⟨body, next⟩
  rcases hl : (loopTest lines next).read with ⟨test, after⟩
  rw [hb] at h
  dsimp only at h
  rw [hl] at h
  cases h
  simp only [Stmt.unbroken, Bool.and_eq_true, Bool.not_eq_true'] at hs
  obtain ⟨last, us, inner, close, rfl, hlast, henc, hne, hends, rfl⟩ := loopTest_spells hl hs.2
  exact .doLoop ht (hbodies _ _ ts body _ (Nat.le_refl _) hb hs.1) hlast henc hne hends

theorem elseIf_spells {i : Token} {tail : Tail} (ht : t.kind = .keyword .elseWord)
    (hi : i.kind = .keyword .ifWord) (h : (conditionalTail lines (t :: i :: ts)).read = (tail, rest))
    (hs : tail.unbroken = true) (hbodies : BodiesSpelled lines ts.length)
    (htails : TailsSpelled lines ts.length) : Spells lines.stop (t :: i :: ts) (.tail tail) rest := by
  rw [conditionalTail_elseIf ht hi] at h
  cases hp : parenthesized lines .elseIfArm ts with
  | error d =>
    simp only [hp] at h
    cases h
    cases hs
  | ok found =>
    obtain ⟨test, first⟩ := found
    have hlt := parenthesized_length hp
    rcases hb : (bodyOf lines .elseIfArm t.line first).read with ⟨body, next⟩
    have hle := Parsed.read_le hb
    rcases htail : (conditionalTail lines next).read with ⟨tail, after⟩
    rw [hp] at h
    dsimp only at h
    rw [hb, htail] at h
    cases h
    simp only [Tail.unbroken, Bool.and_eq_true, Bool.not_eq_true'] at hs
    obtain ⟨htest, hbody, htl⟩ := hs
    have hne : test ≠ [] := condition_of_unbroken htest
    rw [conditionTerm_of_ne hne]
    exact .elseIf ht hi (parenthesized_iff.mp hp) hne (hbodies _ _ first body next (by omega) hb hbody)
      (htails next tail _ (by omega) htail htl)

end Constructs

-- the measure is that of the functions that read, so that each call here follows one of theirs
mutual

/-- What is read without a problem is spelled by the tokens. -/
theorem statement_spells (inside : Construct) (t : Token) (ts : List Token) {s : Stmt} {rest : List Token}
    (h : (statement lines inside t ts).read = (s, rest)) (hs : s.unbroken = true) :
    Spells lines.stop (t :: ts) (.stmt s) rest := by
  have hbodies : BodiesSpelled lines ts.length := fun construct line us _ _ hle hb hu =>
    bodyOf_spells construct line us hb hu
  have htails : TailsSpelled lines ts.length := fun us _ _ hle htail hu => conditionalTail_spells us htail hu
  cases hc : startsConstruct t with
  | false => exact plain_spells hc h hs
  | true =>
    unfold startsConstruct at hc
    split at hc
    · rename_i ht
      rw [statement_braces ht] at h
      rcases hb : (braced lines .block t.line ts).read with ⟨body, next⟩
      rw [hb] at h
      cases h
      exact .braces ht (braced_spells .block t.line ts hb hs)
    · rename_i ht
      exact branch_spells ht h hs hbodies htails
    · rename_i ht
      exact whileLoop_spells ht h hs hbodies
    · rename_i ht
      exact forLoop_spells ht h hs hbodies
    · rename_i ht
      exact doLoop_spells ht h hs hbodies
    · rename_i ht
      rw [statement_else ht] at h
      cases h
      cases hs
    · cases hc
termination_by 3 * ts.length + 2

theorem braced_spells (construct : Construct) (line : Nat) (ts : List Token) {body : List Stmt}
    {rest : List Token} (h : (braced lines construct line ts).read = (body, rest))
    (hs : Stmt.allUnbroken body = true) : Spells lines.stop ts (.block body) rest := by
  match ts with
  | [] =>
    rw [braced] at h
    cases h
    cases hs
  | t :: ts =>
    by_cases ht : t.kind = .closeBrace
    · rw [braced_close ht] at h
      cases h
      exact .close ht
    · rw [braced_more ht] at h
      rcases hf : (statement lines construct t ts).read with ⟨first, next⟩
      have hle := Parsed.read_le hf
      rcases ho : (braced lines construct line next).read with ⟨others, after⟩
      rw [hf] at h
      dsimp only at h
      rw [ho] at h
      cases h
      obtain ⟨hfirst, hothers⟩ := Bool.and_eq_true_iff.mp hs
      exact .more (statement_spells construct t ts hf hfirst) (braced_spells construct line next ho hothers)
termination_by 3 * ts.length + 1

theorem bodyOf_spells (construct : Construct) (line : Nat) (ts : List Token) {body : List Stmt}
    {rest : List Token} (h : (bodyOf lines construct line ts).read = (body, rest))
    (hs : Stmt.allUnbroken body = true) : Spells lines.stop ts (.body body) rest := by
  match ts with
  | [] =>
    rw [bodyOf] at h
    cases h
    cases hs
  | t :: ts =>
    by_cases ho : t.kind = .openBrace
    · rw [bodyOf_braced ho] at h
      exact .braced ho (braced_spells construct line ts h hs)
    · by_cases hc : t.kind = .closeBrace
      · rw [bodyOf] at h
        simp only [Token.is, hc] at h
        cases h
        cases hs
      · rw [bodyOf_single ho hc] at h
        rcases hf : (statement lines construct t ts).read with ⟨first, next⟩
        rw [hf] at h
        cases h
        obtain ⟨hfirst, -⟩ := Bool.and_eq_true_iff.mp hs
        exact .single ho (statement_spells construct t ts hf hfirst)
termination_by 3 * ts.length + 1

theorem conditionalTail_spells (ts : List Token) {tail : Tail} {rest : List Token}
    (h : (conditionalTail lines ts).read = (tail, rest)) (hs : tail.unbroken = true) :
    Spells lines.stop ts (.tail tail) rest := by
  by_cases hd : ∀ t more, ts = t :: more → t.kind ≠ .keyword .elseWord
  · rw [conditionalTail_done hd] at h
    cases h
    exact .done hd
  · match ts with
    | [] => exact absurd nofun hd
    | [t] =>
      have ht : t.kind = .keyword .elseWord := by simpa using hd
      rw [conditionalTail_lone ht] at h
      cases h
      cases hs
    | t :: i :: more =>
      have ht : t.kind = .keyword .elseWord := by simpa using hd
      by_cases hi : i.kind = .keyword .ifWord
      · have hbodies : BodiesSpelled lines more.length := fun construct line us _ _ hle hb hu =>
          bodyOf_spells construct line us hb hu
        have htails : TailsSpelled lines more.length := fun us _ _ hle htail hu =>
          conditionalTail_spells us htail hu
        exact elseIf_spells ht hi h hs hbodies htails
      · rw [conditionalTail_elseArm ht hi] at h
        rcases hb : (bodyOf lines .elseArm t.line (i :: more)).read with ⟨body, next⟩
        rw [hb] at h
        cases h
        exact .elseArm ht hi (bodyOf_spells .elseArm t.line (i :: more) hb hs)
termination_by 3 * ts.length + 1

end

theorem entry_close (ht : t.kind = .closeBrace) :
    entry lines line (t :: ts) = if ts.isEmpty then []
      else [.broken (.syntactic t.line .strayBodyBrace)] := by
  rw [entry]
  simp only [Token.is, ht]
  rfl

theorem entry_more {t : Token} {line : Nat} {ts : List Token} (ht : t.kind ≠ .closeBrace) :
    entry lines line (t :: ts) =
      let first := (statement lines .entry t ts).read
      first.1 :: entry lines line first.2 := by
  rw [entry]
  simp only [Token.is, ht]
  rfl

theorem entry_spells (line : Nat) (ts : List Token) (h : Stmt.allUnbroken (entry lines line ts) = true) :
    Spells lines.stop ts (.block (entry lines line ts)) [] := by
  match ts with
  | [] =>
    rw [entry] at h
    cases h
  | t :: ts =>
    by_cases ht : t.kind = .closeBrace
    · rw [entry_close ht] at h ⊢
      cases ts with
      | nil => exact .close ht
      | cons u more => cases h
    · rw [entry_more ht] at h ⊢
      rcases hf : (statement lines .entry t ts).read with ⟨first, next⟩
      have hle := Parsed.read_le hf
      rw [hf] at h
      obtain ⟨hfirst, hothers⟩ := Bool.and_eq_true_iff.mp h
      exact .more (statement_spells .entry t ts hf hfirst) (entry_spells line next hothers)
termination_by ts.length

theorem entry_of_spells {body : List Stmt} (h : Spells lines.stop ts (.block body) []) :
    entry lines line ts = body := by
  induction body generalizing ts with
  | nil =>
    cases h with
    | close ht => exact entry_close ht
  | cons s rest ih =>
    cases h with
    | more hs hb =>
      obtain ⟨t, more, rfl, hk, hread⟩ := hs.reads
      rw [entry_more hk, hread .entry]
      exact congrArg (s :: ·) (ih hb)

end Grammar

namespace Stmt

theorem ofTokens_spelled {start stop : Nat} {tokens : List Token}
    (h : allUnbroken (ofTokens start stop tokens) = true) :
    Spelled stop tokens (ofTokens start stop tokens) :=
  Grammar.entry_spells start tokens h

/-- Tokens spell one body at most, the one that is read. -/
theorem Spelled.ofTokens {start stop : Nat} {tokens : List Token} {body : List Stmt}
    (h : Spelled stop tokens body) : Stmt.ofTokens start stop tokens = body :=
  Grammar.entry_of_spells h

end Stmt

end WorldScript
