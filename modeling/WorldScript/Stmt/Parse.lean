import WorldScript.Stmt
import WorldScript.Term.Parse

/-! # Statements of tokens

An `else` belongs to the nearest conditional that is still open.  The first thing that is wrong becomes
a broken leaf, and nothing is read after it.
-/

namespace WorldScript

structure BodyLines where
  /-- Line of the last token of the body. -/
  last : Nat
  /-- Line where the body ends. -/
  stop : Nat

namespace Grammar

/-- The tokens before the next semicolon that no bracket encloses, and those after it.  A brace ends the
search.  `depth` counts the brackets that are open. -/
def untilSemicolon (lines : BodyLines) (after : String) :
    Nat → List Token → Except Diagnostic (List Token × List Token)
  | _, [] => .error (.syntactic lines.last (.expectedSemicolon after none))
  | depth, t :: rest =>
    let further (depth : Nat) :=
      (untilSemicolon lines after depth rest).map fun (run, next) => (t :: run, next)
    match t.kind with
    | .openParen | .openBracket => further (depth + 1)
    | .closeParen | .closeBracket => further (depth - 1)
    | .openBrace | .closeBrace => .error (.syntactic t.line (.expectedSemicolon after (some t)))
    | .semicolon => if depth = 0 then .ok ([], rest) else further depth
    | _ => further depth

def semicolon (lines : BodyLines) (after : String) : List Token → Except Diagnostic (List Token)
  | [] => .error (.syntactic lines.stop (.expectedSemicolon after none))
  | t :: rest =>
    if t.is .semicolon then .ok rest
    else .error (.syntactic t.line (.expectedSemicolon after (some t)))

def runStatement (lines : BodyLines) (after : String) (make : List Token → Stmt) (ts : List Token) :
    Except Diagnostic (Stmt × List Token) :=
  (untilSemicolon lines after 0 ts).map fun r => (make r.1, r.2)

def closedStatement (lines : BodyLines) (after : String) (s : Stmt) (ts : List Token) :
    Except Diagnostic (Stmt × List Token) := (semicolon lines after ts).map fun next => (s, next)

def parenthesized (lines : BodyLines) (construct : Construct) :
    List Token → Except Diagnostic (List Token × List Token)
  | [] => .error (.syntactic lines.stop (.expectedParenthesis construct))
  | t :: rest =>
    if t.is .openParen then Bracket.inside t rest
    else .error (.syntactic t.line (.expectedParenthesis construct))

def conditionTerm (line : Nat) (ts : List Token) : Term :=
  if ts.isEmpty then .broken (.syntactic line .expectedCondition) else .ofTokens line ts

def declaration (lines : BodyLines) (ty : Ty) (line : Nat) :
    List Token → Except Diagnostic (Stmt × List Token)
  | [] => .error (.syntactic line (.expectedVariableName ty))
  | n :: more =>
    match n.identifier? with
    | none => .error (.syntactic line (.expectedVariableName ty))
    | some name =>
      match more with
      | [] => .error (.syntactic line (.expectedInitializer name))
      | s :: after =>
        if s.is .semicolon then .ok (.declare ty name none line, after)
        else if s.isSymbol .assign then
          runStatement lines "variable declaration"
            (fun init => .declare ty name (some (.ofTokens line init)) line) after
        else .error (.syntactic line (.expectedInitializer name))

def returning (lines : BodyLines) (line : Nat) (ts : List Token) :
    Except Diagnostic (Stmt × List Token) :=
  runStatement lines "return"
    (fun run => .ret (if run.isEmpty then none else some (.ofTokens line run)) line) ts

def changing (lines : BodyLines) (line : Nat) : List Token → Except Diagnostic (Stmt × List Token)
  | [] => .error (.syntactic line .expectedStateName)
  | n :: more =>
    match n.stateName? with
    | none => .error (.syntactic line .expectedStateName)
    | some name => closedStatement lines "state change" (.changeState name line) more

def jumping (lines : BodyLines) (line : Nat) : List Token → Except Diagnostic (Stmt × List Token)
  | [] => .error (.syntactic line .expectedJumpLabel)
  | n :: more =>
    match n.identifier? with
    | none => .error (.syntactic line .expectedJumpLabel)
    | some name => closedStatement lines "jump" (.jump name line) more

def plainStatement (lines : BodyLines) (t : Token) (rest : List Token) :
    Except Diagnostic (Stmt × List Token) :=
  match t.kind with
  | .semicolon => .ok (.empty, rest)
  | .typeName ty => declaration lines ty t.line rest
  | .keyword .returnWord => returning lines t.line rest
  | .keyword .state => changing lines t.line rest
  | .keyword .jump => jumping lines t.line rest
  | .keyword .breakWord => closedStatement lines "break" (.breakLoop t.line) rest
  | .keyword .continueWord => closedStatement lines "continue" (.continueLoop t.line) rest
  | .keyword .default => .error (.syntactic t.line .defaultInBody)
  | _ => runStatement lines "expression" (fun run => .expr (.ofTokens t.line run) t.line) (t :: rest)

/-- What a mapped result comes from. -/
theorem ok_of_map_ok {α β : Type} {f : α → β} {r : Except Diagnostic α} {b : β}
    (h : r.map f = .ok b) : ∃ a, r = .ok a ∧ f a = b := by
  cases r with
  | error d => simp [Except.map] at h
  | ok a => exact ⟨a, rfl, by simpa [Except.map] using h⟩

theorem untilSemicolon_length {lines : BodyLines} {after : String} {depth : Nat}
    {ts run next : List Token} (h : untilSemicolon lines after depth ts = .ok (run, next)) :
    next.length < ts.length := by
  induction ts generalizing depth run with
  | nil => simp [untilSemicolon] at h
  | cons t rest ih =>
    have mapped {d : Nat} (hm : (untilSemicolon lines after d rest).map
        (fun (run, next) => (t :: run, next)) = .ok (run, next)) : next.length < (t :: rest).length := by
      obtain ⟨⟨a, b⟩, ha, hb⟩ := ok_of_map_ok hm
      simp only [Prod.mk.injEq] at hb
      have := ih (hb.2 ▸ ha)
      simp only [List.length_cons]
      omega
    unfold untilSemicolon at h
    simp only at h
    split at h
    · exact mapped h
    · exact mapped h
    · exact mapped h
    · exact mapped h
    · simp at h
    · simp at h
    · split at h
      · simp only [Except.ok.injEq, Prod.mk.injEq] at h
        simp [← h.2]
      · exact mapped h
    · exact mapped h

theorem semicolon_length {lines : BodyLines} {after : String} {ts next : List Token}
    (h : semicolon lines after ts = .ok next) : next.length < ts.length := by
  unfold semicolon at h
  grind

theorem parenthesized_length {lines : BodyLines} {construct : Construct} {ts inner after : List Token}
    (h : parenthesized lines construct ts = .ok (inner, after)) : after.length < ts.length := by
  unfold parenthesized at h
  split at h
  · simp at h
  · split at h
    · have := Bracket.inside_length h
      simp only [List.length_cons]
      omega
    · simp at h

theorem rest_le_of_parenthesized {lines : BodyLines} {construct : Construct} {ts inner after : List Token}
    (h : parenthesized lines construct ts = .ok (inner, after)) {α : Type} (body : Parsed α after) :
    body.rest.length ≤ ts.length :=
  Nat.le_trans body.rest_le (Nat.le_of_lt (parenthesized_length h))

theorem runStatement_length {lines : BodyLines} {after : String} {make : List Token → Stmt}
    {ts next : List Token} {s : Stmt} (h : runStatement lines after make ts = .ok (s, next)) :
    next.length < ts.length := by
  obtain ⟨⟨run, rest⟩, hr, hb⟩ := ok_of_map_ok h
  simp only [Prod.mk.injEq] at hb
  exact hb.2 ▸ untilSemicolon_length hr

theorem closedStatement_length {lines : BodyLines} {after : String} {ts next : List Token} {s t : Stmt}
    (h : closedStatement lines after t ts = .ok (s, next)) : next.length < ts.length := by
  obtain ⟨rest, hr, hb⟩ := ok_of_map_ok h
  simp only [Prod.mk.injEq] at hb
  exact hb.2 ▸ semicolon_length hr

theorem declaration_length {lines : BodyLines} {ty : Ty} {line : Nat} {ts next : List Token} {s : Stmt}
    (h : declaration lines ty line ts = .ok (s, next)) : next.length ≤ ts.length := by
  unfold declaration at h
  split at h
  · simp at h
  · split at h
    · simp at h
    · split at h
      · simp at h
      · simp only [List.length_cons]
        split at h
        · simp only [Except.ok.injEq, Prod.mk.injEq] at h
          have := congrArg List.length h.2
          omega
        · split at h
          · have := runStatement_length h
            omega
          · simp at h

theorem changing_length {lines : BodyLines} {line : Nat} {ts next : List Token} {s : Stmt}
    (h : changing lines line ts = .ok (s, next)) : next.length ≤ ts.length := by
  unfold changing at h
  split at h
  · simp at h
  · split at h
    · simp at h
    · have := closedStatement_length h
      simp only [List.length_cons]
      omega

theorem jumping_length {lines : BodyLines} {line : Nat} {ts next : List Token} {s : Stmt}
    (h : jumping lines line ts = .ok (s, next)) : next.length ≤ ts.length := by
  unfold jumping at h
  split at h
  · simp at h
  · split at h
    · simp at h
    · have := closedStatement_length h
      simp only [List.length_cons]
      omega

theorem plainStatement_length {lines : BodyLines} {t : Token} {rest next : List Token} {s : Stmt}
    (h : plainStatement lines t rest = .ok (s, next)) : next.length ≤ rest.length := by
  unfold plainStatement at h
  split at h
  · simp only [Except.ok.injEq, Prod.mk.injEq] at h
    simp [← h.2]
  · exact declaration_length h
  · exact Nat.le_of_lt (runStatement_length h)
  · exact changing_length h
  · exact jumping_length h
  · exact Nat.le_of_lt (closedStatement_length h)
  · exact Nat.le_of_lt (closedStatement_length h)
  · simp at h
  · have := runStatement_length h
    simp only [List.length_cons] at this
    omega

def brokenStatement (ts : List Token) (problem : Diagnostic) : Parsed Stmt ts :=
  .atEnd (.broken problem)

def closingTest (lines : BodyLines) (ts : List Token) : Except Diagnostic (Parsed Term ts) :=
  match ts with
  | [] => .error (.syntactic lines.stop .expectedWhile)
  | t :: rest =>
    if t.isKeyword .whileWord then
      match h : parenthesized lines .doLoop rest with
      | .error d => .error d
      | .ok (condition, after) =>
        have := parenthesized_length h
        match hs : semicolon lines "\"do … while\" condition" after with
        | .error d => .error d
        | .ok next =>
          have := semicolon_length hs
          .ok ⟨conditionTerm t.line condition, next, by simp only [List.length_cons]; omega⟩
    else .error (.syntactic t.line .expectedWhile)

def loopTest (lines : BodyLines) (ts : List Token) : Parsed Term ts :=
  match closingTest lines ts with
  | .error d => .broken _ d
  | .ok test => test

def testedLast (lines : BodyLines) (t : Token) {ts : List Token} (body : Parsed (List Stmt) ts) :
    Parsed Stmt ts :=
  let test := loopTest lines body.rest
  ⟨.doLoop body.value test.value t.line (firstLine lines.stop body.rest), test.rest,
    Nat.le_trans test.rest_le body.rest_le⟩

mutual

def statement (lines : BodyLines) (inside : Construct) (t : Token) (rest : List Token) :
    Parsed Stmt rest :=
  match t.kind with
  | .openBrace =>
    let body := braced lines .block t.line rest
    ⟨.block body.value, body.rest, body.rest_le⟩
  | .keyword .ifWord =>
    match h : parenthesized lines .ifArm rest with
    | .error d => brokenStatement _ d
    | .ok (condition, after) =>
      have := parenthesized_length h
      let body := bodyOf lines .ifArm t.line after
      have := body.rest_le
      let tail := conditionalTail lines body.rest
      have := tail.rest_le
      ⟨.branch (conditionTerm t.line condition) body.value tail.value t.line, tail.rest, by omega⟩
  | .keyword .whileWord =>
    match h : parenthesized lines .whileLoop rest with
    | .error d => brokenStatement _ d
    | .ok (condition, after) =>
      have := parenthesized_length h
      let body := bodyOf lines .whileLoop t.line after
      have := body.rest_le
      ⟨.whileLoop (conditionTerm t.line condition) body.value t.line (firstLine lines.stop body.rest),
        body.rest, by omega⟩
  | .keyword .forWord =>
    match h : parenthesized lines .forLoop rest with
    | .error d => brokenStatement _ d
    | .ok (header, after) =>
      have := parenthesized_length h
      match runsBetween .semicolon header with
      | [init, condition, step] =>
        let body := bodyOf lines .forLoop t.line after
        have := body.rest_le
        ⟨.forLoop (Term.listOfTokens t.line init)
            (if condition.isEmpty then none else some (.ofTokens t.line condition))
            (Term.listOfTokens t.line step) body.value t.line (firstLine lines.stop body.rest),
          body.rest, by omega⟩
      | _ => brokenStatement _ (.syntactic t.line .expectedForHeader)
  | .keyword .doWord =>
    testedLast lines t (bodyOf lines .doLoop t.line rest)
  | .keyword .elseWord => brokenStatement _ (.syntactic t.line (.loneElse inside))
  | _ =>
    match h : plainStatement lines t rest with
    | .error d => brokenStatement _ d
    | .ok (s, next) => ⟨s, next, plainStatement_length h⟩
termination_by 3 * rest.length + 2
decreasing_by all_goals grind

/-- The statements of a construct up to the brace that closes it.  The construct starts on `line`. -/
def braced (lines : BodyLines) (construct : Construct) (line : Nat) (ts : List Token) :
    Parsed (List Stmt) ts :=
  match ts with
  | [] => .atEnd [.broken (.syntactic line (.missingBrace construct))]
  | t :: rest =>
    if t.is .closeBrace then .ofHead []
    else
      let first := statement lines construct t rest
      have := first.rest_le
      let others := braced lines construct line first.rest
      have := others.rest_le
      ⟨first.value :: others.value, others.rest, by simp only [List.length_cons]; omega⟩
termination_by 3 * ts.length + 1
decreasing_by all_goals grind

def bodyOf (lines : BodyLines) (construct : Construct) (line : Nat) (ts : List Token) :
    Parsed (List Stmt) ts :=
  match ts with
  | [] => .atEnd [.broken (.syntactic line (.missingStatement construct))]
  | t :: rest =>
    if t.is .openBrace then
      let body := braced lines construct line rest
      have := body.rest_le
      ⟨body.value, body.rest, by simp only [List.length_cons]; omega⟩
    else if t.is .closeBrace then
      .atEnd [.broken (.syntactic t.line (.statementBeforeBrace construct))]
    else
      let body := statement lines construct t rest
      have := body.rest_le
      ⟨[body.value], body.rest, by simp only [List.length_cons]; omega⟩
termination_by 3 * ts.length + 1
decreasing_by all_goals grind

def conditionalTail (lines : BodyLines) (ts : List Token) : Parsed Tail ts :=
  match ts with
  | [] => .atEnd (.done lines.stop)
  | t :: rest =>
    if t.isKeyword .elseWord then
      match rest with
      | [] =>
        let body := bodyOf lines .elseArm t.line []
        .atEnd (.elseArm body.value t.line lines.stop)
      | i :: more =>
        if i.isKeyword .ifWord then
          match h : parenthesized lines .elseIfArm more with
          | .error d => .atEnd (.elseIf (.broken d) [] (.done t.line) t.line)
          | .ok (condition, after) =>
            have := parenthesized_length h
            let body := bodyOf lines .elseIfArm t.line after
            have := body.rest_le
            let tail := conditionalTail lines body.rest
            have := tail.rest_le
            ⟨.elseIf (conditionTerm t.line condition) body.value tail.value t.line, tail.rest, by
              simp only [List.length_cons]; omega⟩
        else
          let body := bodyOf lines .elseArm t.line (i :: more)
          have := body.rest_le
          ⟨.elseArm body.value t.line (firstLine lines.stop body.rest), body.rest, by
            simp only [List.length_cons] at this ⊢; omega⟩
    else ⟨.done t.line, t :: rest, Nat.le_refl _⟩
termination_by 3 * ts.length + 1
decreasing_by all_goals grind

end

/-- The statements of a whole body, with the brace that closes it.  The body opens on `line`. -/
def entry (lines : BodyLines) (line : Nat) (ts : List Token) : List Stmt :=
  match ts with
  | [] => [.broken (.syntactic line (.missingBrace .entry))]
  | t :: rest =>
    if t.is .closeBrace then
      if rest.isEmpty then [] else [.broken (.syntactic t.line .strayBodyBrace)]
    else
      let first := statement lines .entry t rest
      have := first.rest_le
      first.value :: entry lines line first.rest
termination_by ts.length
decreasing_by grind

end Grammar

/-- The statements that the tokens after an opening brace spell, up to the brace that closes the body.
The body opens on line `start` and ends on line `stop`. -/
def Stmt.ofTokens (start stop : Nat) (ts : List Token) : List Stmt :=
  Grammar.entry ⟨lastLine stop ts, stop⟩ start ts

end WorldScript
