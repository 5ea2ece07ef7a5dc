import WorldScript.Names
import WorldScript.Script.Header

/-! # Declarations

A script is a run of variables, functions and states with their handlers.  Bodies are kept as tokens.

A body ends with the brace that balances its first one, with two exceptions that make for better
reports.  Where only a further statement can follow that brace, the body goes on.  Where a header stands
at the start of a statement, the body ends before it and lacks its closing brace.
-/

namespace WorldScript

structure Block where
  /-- The tokens after the opening brace, up to the closing brace and with it. -/
  tokens : List Token
  openLine : Nat
  closeLine : Nat
  /-- Whether the closing brace is there. -/
  closed : Bool

structure GlobalDecl where
  name : String
  ty : Ty
  line : Nat
  init : List Token

structure FunctionDecl where
  signature : Signature
  body : Block
  line : Nat

structure HandlerDecl where
  name : String
  params : List Param
  body : Block
  line : Nat

structure StateDecl where
  name : String
  line : Nat
  handlers : List HandlerDecl

inductive Declaration where
  | global (decl : GlobalDecl)
  | function (decl : FunctionDecl)
  | state (decl : StateDecl)

namespace Declaration

def part? : Declaration → Option Part
  | .global _ => none
  | .function d => some (.function d.signature.name)
  | .state d => some (.state d.name)

/-- Whether what follows a balancing brace can only be a further statement of the body that it would
close.  A header that is malformed is left to be reported as such. -/
def continuesBody (inState : Bool) (ts : List Token) : Bool :=
  match ts with
  | [] => false
  | t :: rest =>
    !Header.isHeader ts &&
      match t.kind, rest with
      | .closeBrace, _ => false
      | .typeName _, _ | .keyword .default, _ => inState
      | .identifier _, opening :: more =>
        !opening.is .openParen ||
          match Bracket.inside opening more with
          | .ok (_, after) => !Header.startsWith .openBrace after
          | .error _ => false
      | _, _ => true

structure Cut where
  tokens : List Token
  /-- Whether the closing brace is the last of the tokens. -/
  closed : Bool
  rest : List Token

def Cut.cons (t : Token) (c : Cut) : Cut := { c with tokens := t :: c.tokens }

/-- The body at the start of a run, after its opening brace.  `depth` counts the open braces and `fresh`
says whether a statement may start here. -/
def cut (inState : Bool) (depth : Nat) (fresh : Bool) : List Token → Cut
  | [] => ⟨[], false, []⟩
  | t :: rest =>
    match t.kind with
    | .openBrace => (cut inState (depth + 1) true rest).cons t
    | .closeBrace =>
      if depth ≤ 1 && !continuesBody inState rest then ⟨[t], true, rest⟩
      else (cut inState (depth - 1) true rest).cons t
    | kind =>
      if fresh && Header.isHeader (t :: rest) then ⟨[], false, t :: rest⟩
      else (cut inState depth (kind = .semicolon) rest).cons t

def block (part : Part) (line : Nat) (inState : Bool) :
    List Token → Except Diagnostic (Block × List Token)
  | [] => .error (.syntactic line (.expectedBrace part none))
  | t :: rest =>
    if t.is .openBrace then
      let body := cut inState 1 true rest
      .ok (⟨body.tokens, t.line, lastLine t.line body.tokens, body.closed⟩, body.rest)
    else .error (.syntactic t.line (.expectedBrace part (some t)))

def withBody (part : Part) (line : Nat) (inState : Bool) (opening : Token) (ts : List Token) :
    Except Diagnostic ((List Param × Block) × List Token) := do
  let (ps, after) ← Header.params opening ts
  let (body, next) ← block part line inState after
  return ((ps, body), next)

def functionTail (returns : Option Ty) (name : String) (line : Nat) (opening : Token)
    (ts : List Token) : Except Diagnostic (Declaration × List Token) := do
  let ((ps, body), next) ← withBody (.function name) line false opening ts
  return (.function ⟨⟨name, returns, ps⟩, body, line⟩, next)

/-- The tokens of an initializer before its semicolon, and those after it.  `depth` counts the open
parentheses and square brackets; `last` is the last line of the script. -/
def initializer (name : String) (last depth : Nat) :
    List Token → Except Diagnostic (List Token × List Token)
  | [] => .error (.syntactic last (.expectedSemicolon s!"the initializer of '{name}'" none))
  | t :: rest =>
    match t.kind with
    | .openBrace | .closeBrace =>
      .error (.syntactic t.line (.expectedSemicolon s!"the initializer of '{name}'" (some t)))
    | .openParen | .openBracket => cons t (initializer name last (depth + 1) rest)
    | .closeParen | .closeBracket => cons t (initializer name last (depth - 1) rest)
    | .semicolon => if depth = 0 then .ok ([], rest) else cons t (initializer name last depth rest)
    | _ => cons t (initializer name last depth rest)
where
  /-- One more token before the semicolon. -/
  cons (t : Token) (r : Except Diagnostic (List Token × List Token)) :
      Except Diagnostic (List Token × List Token) := r.map fun p => (t :: p.1, p.2)

def typedTail (ty : Ty) (line last : Nat) : List Token → Except Diagnostic (Declaration × List Token)
  | [] => .error (.syntactic line (.expectedName ty))
  | n :: rest =>
    match n.identifier? with
    | none => .error (.syntactic line (.expectedName ty))
    | some name =>
      match rest with
      | [] => .error (.syntactic line (.expectedDeclaration name))
      | t :: more =>
        match t.kind with
        | .openParen => functionTail (some ty) name line t more
        | .semicolon => .ok (.global ⟨name, ty, line, []⟩, more)
        | .operator .assign =>
          (initializer name last 0 more).map fun p => (.global ⟨name, ty, line, p.1⟩, p.2)
        | _ => .error (.syntactic line (.expectedDeclaration name))

/-- A cut loses no token. -/
theorem cut_append (inState : Bool) (depth : Nat) (fresh : Bool) (ts : List Token) :
    (cut inState depth fresh ts).tokens ++ (cut inState depth fresh ts).rest = ts := by
  fun_induction cut inState depth fresh ts <;> simp_all [Cut.cons]

theorem block_length {part : Part} {line : Nat} {inState : Bool} {ts next : List Token} {b : Block}
    (h : block part line inState ts = .ok (b, next)) : next.length < ts.length := by
  unfold block at h
  split at h
  · simp at h
  · rename_i t rest
    split at h
    · simp only [Except.ok.injEq, Prod.mk.injEq] at h
      have := congrArg List.length (cut_append inState 1 true rest)
      simp only [List.length_append] at this
      simp only [List.length_cons, ← h.2]
      omega
    · simp at h

theorem withBody_length {part : Part} {line : Nat} {inState : Bool} {opening : Token}
    {ts next : List Token} {p : List Param × Block}
    (h : withBody part line inState opening ts = .ok (p, next)) : next.length < ts.length := by
  unfold withBody at h
  cases hp : Header.params opening ts with
  | error d => simp [hp, bind, Except.bind] at h
  | ok q =>
    obtain ⟨ps, after⟩ := q
    have hl := Header.params_length hp
    cases hb : block part line inState after with
    | error d => simp [hp, hb, bind, Except.bind] at h
    | ok r =>
      obtain ⟨b, rest⟩ := r
      have := block_length hb
      simp only [hp, hb, bind, Except.bind, pure, Except.pure, Except.ok.injEq, Prod.mk.injEq] at h
      obtain ⟨_, rfl⟩ := h
      omega

theorem functionTail_length {returns : Option Ty} {name : String} {line : Nat} {opening : Token}
    {ts next : List Token} {d : Declaration}
    (h : functionTail returns name line opening ts = .ok (d, next)) : next.length < ts.length := by
  unfold functionTail at h
  cases hw : withBody (.function name) line false opening ts with
  | error d => simp [hw, bind, Except.bind] at h
  | ok q =>
    obtain ⟨⟨ps, body⟩, after⟩ := q
    have := withBody_length hw
    simp only [hw, bind, Except.bind, pure, Except.pure, Except.ok.injEq, Prod.mk.injEq] at h
    obtain ⟨_, rfl⟩ := h
    exact this

theorem initializer_length {name : String} {last depth : Nat} {ts inner next : List Token}
    (h : initializer name last depth ts = .ok (inner, next)) : next.length < ts.length := by
  have step {t : Token} {rest : List Token} {r : Except Diagnostic (List Token × List Token)}
      {inner : List Token} (ih : ∀ a, r = .ok (a, next) → next.length < rest.length)
      (h : initializer.cons t r = .ok (inner, next)) : next.length < (t :: rest).length := by
    cases r with
    | error d => simp [initializer.cons, Except.map] at h
    | ok p =>
      obtain ⟨a, b⟩ := p
      simp only [initializer.cons, Except.map, Except.ok.injEq, Prod.mk.injEq] at h
      obtain ⟨_, rfl⟩ := h
      have := ih a rfl
      simp only [List.length_cons]
      omega
  induction ts generalizing depth inner with
  | nil => simp [initializer] at h
  | cons t rest ih =>
    unfold initializer at h
    split at h
    · simp at h
    · simp at h
    · exact step (fun _ => ih) h
    · exact step (fun _ => ih) h
    · exact step (fun _ => ih) h
    · exact step (fun _ => ih) h
    · split at h
      · simp only [Except.ok.injEq, Prod.mk.injEq] at h
        simp [← h.2]
      · exact step (fun _ => ih) h
    · exact step (fun _ => ih) h

theorem typedTail_length {ty : Ty} {line last : Nat} {ts next : List Token} {d : Declaration}
    (h : typedTail ty line last ts = .ok (d, next)) : next.length < ts.length := by
  unfold typedTail at h
  split at h
  · simp at h
  · split at h
    · simp at h
    · rename_i n rest _ name _
      split at h
      · simp at h
      · rename_i t more
        split at h
        · have := functionTail_length h
          simp only [List.length_cons]
          omega
        · simp only [Except.ok.injEq, Prod.mk.injEq] at h
          simp only [List.length_cons, ← h.2]
          omega
        · cases hi : initializer name last 0 more with
          | error d => simp [hi, Except.map] at h
          | ok p =>
            obtain ⟨inner, after⟩ := p
            have := initializer_length hi
            simp only [hi, Except.map, Except.ok.injEq, Prod.mk.injEq] at h
            simp only [List.length_cons, ← h.2]
            omega
        · simp at h

/-- A state that ends before its closing brace: an unclosed handler is reported on its own, so nothing
is wrong here unless the last handler is closed. -/
def unfinishedState (part : Part) (line : Nat) (closed : Bool) (ts : List Token) :
    Except Diagnostic (List HandlerDecl × List Token) :=
  if closed then .error (.syntactic line (.unclosedPart part)) else .ok ([], ts)

theorem rest_of_unfinishedState {part : Part} {line : Nat} {closed : Bool} {ts next : List Token}
    {hs : List HandlerDecl} (h : unfinishedState part line closed ts = .ok (hs, next)) : next = ts := by
  unfold unfinishedState at h
  split at h
  · simp at h
  · simp only [Except.ok.injEq, Prod.mk.injEq] at h
    exact h.2.symm

def isStateHeader : List Token → Bool
  | [] => false
  | t :: rest => (t.isKeyword .default || t.isKeyword .state) && Header.isHeader (t :: rest)

def handler (part : Part) (t : Token) (rest : List Token) : Except Diagnostic (HandlerDecl × List Token) :=
  match t.kind, rest with
  | .identifier name, opening :: more =>
    if opening.is .openParen then
      (withBody (.event name) t.line true opening more).map fun p => (⟨name, p.1.1, p.1.2, t.line⟩, p.2)
    else .error (.syntactic t.line (.expectedHandler part t))
  | _, _ => .error (.syntactic t.line (.expectedHandler part t))

theorem handler_length {part : Part} {t : Token} {rest next : List Token} {d : HandlerDecl}
    (h : handler part t rest = .ok (d, next)) : next.length < rest.length := by
  unfold handler at h
  split at h
  · rename_i name opening more _
    split at h
    · cases hw : withBody (.event name) t.line true opening more with
      | error d => simp [hw, Except.map] at h
      | ok p =>
        obtain ⟨q, after⟩ := p
        have := withBody_length hw
        simp only [hw, Except.map, Except.ok.injEq, Prod.mk.injEq] at h
        simp only [List.length_cons, ← h.2]
        omega
    · simp at h
  · simp at h

/-- The handlers of a state up to its closing brace, and what follows.  `closed` says whether the
handler before is closed. -/
def handlers (part : Part) (line : Nat) (closed : Bool) (ts : List Token) :
    Except Diagnostic (List HandlerDecl × List Token) :=
  match ts with
  | [] => unfinishedState part line closed []
  | t :: rest =>
    if isStateHeader (t :: rest) then unfinishedState part line closed (t :: rest)
    else if t.is .closeBrace then .ok ([], rest)
    else
      match h : handler part t rest with
      | .error d => .error d
      | .ok (d, next) =>
        have := handler_length h
        (handlers part line d.body.closed next).map fun p => (d :: p.1, p.2)
termination_by ts.length
decreasing_by simp only [List.length_cons]; omega

def stateTail (name : String) (line : Nat) : List Token → Except Diagnostic (Declaration × List Token)
  | [] => .error (.syntactic line (.expectedBrace (.state name) none))
  | t :: rest =>
    if t.is .openBrace then
      (handlers (.state name) line true rest).map fun p => (.state ⟨name, line, p.1⟩, p.2)
    else .error (.syntactic t.line (.expectedBrace (.state name) (some t)))

theorem handlers_length {part : Part} {line : Nat} {closed : Bool} {ts next : List Token}
    {hs : List HandlerDecl} (h : handlers part line closed ts = .ok (hs, next)) :
    next.length ≤ ts.length := by
  fun_induction handlers part line closed ts generalizing hs next with
  | case1 => exact Nat.le_of_eq (congrArg List.length (rest_of_unfinishedState h))
  | case2 => exact Nat.le_of_eq (congrArg List.length (rest_of_unfinishedState h))
  | case3 => simp_all
  | case4 => simp_all
  | case5 closed t rest _ _ d after hd this ih =>
    cases hr : handlers part line d.body.closed after with
    | error d => simp [hr, Except.map] at h
    | ok p =>
      obtain ⟨others, final⟩ := p
      have := ih hr
      simp only [hr, Except.map, Except.ok.injEq, Prod.mk.injEq] at h
      simp only [List.length_cons, ← h.2]
      omega

theorem stateTail_length {name : String} {line : Nat} {ts next : List Token} {d : Declaration}
    (h : stateTail name line ts = .ok (d, next)) : next.length < ts.length := by
  unfold stateTail at h
  split at h
  · simp at h
  · rename_i t rest
    split at h
    · cases hh : handlers (.state name) line true rest with
      | error d => simp [hh, Except.map] at h
      | ok p =>
        obtain ⟨hs, after⟩ := p
        have := handlers_length hh
        simp only [hh, Except.map, Except.ok.injEq, Prod.mk.injEq] at h
        simp only [List.length_cons, ← h.2]
        omega
    · simp at h

/-- The declaration that starts with the token `t`, and what follows.  `after` is the last declaration
with braces before it, and `last` the last line of the script. -/
def ofToken (last : Nat) (after : Option Part) (t : Token) (rest : List Token) :
    Except Diagnostic (Declaration × List Token) :=
  match t.kind, rest with
  | .typeName ty, _ => typedTail ty t.line last rest
  | .identifier name, opening :: more =>
    if opening.is .openParen then functionTail none name t.line opening more
    else .error (.syntactic t.line (.unexpectedAtTop t))
  | .keyword .default, _ => stateTail "default" t.line rest
  | .keyword .state, n :: more =>
    match n.stateName? with
    | some name => stateTail name t.line more
    | none => .error (.syntactic t.line .expectedStateName)
  | .keyword .state, [] => .error (.syntactic t.line .expectedStateName)
  | .closeBrace, _ => .error (.syntactic t.line (.strayBrace after))
  | _, _ => .error (.syntactic t.line (.unexpectedAtTop t))

theorem ofToken_length {last : Nat} {after : Option Part} {t : Token} {rest next : List Token}
    {d : Declaration} (h : ofToken last after t rest = .ok (d, next)) : next.length ≤ rest.length := by
  unfold ofToken at h
  split at h
  · exact Nat.le_of_lt (typedTail_length h)
  · split at h
    · have := functionTail_length h
      simp only [List.length_cons]
      omega
    · simp at h
  · exact Nat.le_of_lt (stateTail_length h)
  · split at h
    · have := stateTail_length h
      simp only [List.length_cons]
      omega
    · simp at h
  · simp at h
  · simp at h
  · simp at h

def listFrom (last : Nat) (after : Option Part) (ts : List Token) :
    Except Diagnostic (List Declaration) :=
  match ts with
  | [] => .ok []
  | t :: rest =>
    match h : ofToken last after t rest with
    | .error d => .error d
    | .ok (d, next) =>
      have := ofToken_length h
      (listFrom last (d.part? <|> after) next).map (d :: ·)
termination_by ts.length
decreasing_by simp only [List.length_cons]; omega

def listOfTokens (ts : List Token) : Except Diagnostic (List Declaration) :=
  listFrom (lastLine 1 ts) none ts

end Declaration

end WorldScript
