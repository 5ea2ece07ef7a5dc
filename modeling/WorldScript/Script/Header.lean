import WorldScript.Token.Bracket

/-! # Headers of declarations

`default`, `state name` and `type name(type name, …)`, each before an opening brace.  A header that
stands where a statement should start tells that the body before it was not closed.
-/

namespace WorldScript.Header

def startsWith (kind : TokenKind) : List Token → Bool
  | [] => false
  | t :: _ => t.is kind

def param (line : Nat) (run : List Token) : Except Diagnostic Param :=
  match run with
  | [ty, name] =>
    match ty.ty?, name.identifier? with
    | some ty, some name => .ok ⟨name, ty⟩
    | _, _ => .error (.syntactic ty.line .expectedParameter)
  | _ => .error (.syntactic (firstLine line run) .expectedParameter)

def paramList (line : Nat) (inner : List Token) : Except Diagnostic (List Param) :=
  if inner.isEmpty then .ok [] else (runsBetween .comma inner).mapM (param line)

def params (opening : Token) (ts : List Token) : Except Diagnostic (List Param × List Token) := do
  let (inner, after) ← Bracket.inside opening ts
  let ps ← paramList opening.line inner
  return (ps, after)

def isParamTail : List Token → Bool
  | ty :: name :: next :: rest =>
    ty.ty?.isSome && name.identifier?.isSome &&
      (if next.is .comma then isParamTail rest else next.is .closeParen && startsWith .openBrace rest)
  | _ => false

def isSignature : List Token → Bool
  | [] => false
  | opening :: rest =>
    opening.is .openParen &&
      match rest with
      | [] => false
      | t :: after => if t.is .closeParen then startsWith .openBrace after else isParamTail rest

def isHeader : List Token → Bool
  | [] => false
  | t :: rest =>
    match t.kind with
    | .keyword .default => startsWith .openBrace rest
    | .keyword .state =>
      match rest with
      | [] => false
      | name :: after => name.stateName?.isSome && startsWith .openBrace after
    | .typeName _ =>
      match rest with
      | [] => false
      | name :: after => name.identifier?.isSome && isSignature after
    | .identifier _ => isSignature rest
    | _ => false

/-- The tokens after a parameter list are fewer. -/
theorem params_length {opening : Token} {ts after : List Token} {ps : List Param}
    (h : params opening ts = .ok (ps, after)) : after.length < ts.length := by
  unfold params at h
  cases hi : Bracket.inside opening ts with
  | error d => simp [hi, bind, Except.bind] at h
  | ok p =>
    obtain ⟨inner, rest⟩ := p
    have hl := Bracket.inside_length hi
    cases hp : paramList opening.line inner with
    | error d => simp [hi, hp, bind, Except.bind] at h
    | ok qs =>
      simp only [hi, hp, bind, Except.bind, pure, Except.pure, Except.ok.injEq, Prod.mk.injEq] at h
      obtain ⟨_, rfl⟩ := h
      omega

end WorldScript.Header
