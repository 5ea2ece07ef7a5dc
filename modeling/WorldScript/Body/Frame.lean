import WorldScript.Body

/-! # Frames

The tokens of a body are worked off one statement after the other.  A stack of frames holds the constructs
that are open, the innermost first and the body itself last.  A frame whose body stands in braces is closed
by its brace; any other one is closed when its statement is complete and the next statement starts.

Closing a frame writes the code that belongs behind its body.  An `else` after an arm of a conditional opens
the next arm in its place, so the label where the arms meet is bound when the last of them is closed.
-/

namespace WorldScript

structure BodyFrame where
  construct : Construct
  line : Nat
  /-- The body stands in braces. -/
  braced : Bool := false
  /-- The statement of a body without braces, or the last brace of all, was read. -/
  done : Bool := false
  top : Option Label := none
  again : Option Label := none
  stop : Option Label := none
  /-- Where all arms of a conditional meet. -/
  meeting : Option Label := none
  /-- The steps of a counted loop. -/
  step : List Token := []

namespace BodyFrame

def isLoop (f : BodyFrame) : Bool :=
  match f.construct with
  | .forLoop | .whileLoop | .doLoop => true
  | _ => false

def isArm (f : BodyFrame) : Bool :=
  match f.construct with
  | .ifArm | .elseIfArm => true
  | _ => false

def owned (f : BodyFrame) : List Label :=
  f.top.toList ++ f.again.toList ++ f.stop.toList ++ if f.construct = .elseArm then f.meeting.toList else []

def withBrace (f : BodyFrame) (ts : List Token) : Grammar.Parsed BodyFrame ts :=
  match ts with
  | [] => .atStart f
  | t :: _ => if t.is .openBrace then .ofHead { f with braced := true } else .atStart f

def push (f : BodyFrame) (outer : List BodyFrame) : List BodyFrame := { f with done := false } :: outer

def completed : List BodyFrame → List BodyFrame
  | [] => []
  | f :: outer => if f.braced then f :: outer else { f with done := true } :: outer

@[simp] theorem completed_length (frames : List BodyFrame) : (completed frames).length = frames.length := by
  cases frames with
  | nil => rfl
  | cons f outer =>
    rw [completed]
    split <;> rfl

/-- The frames when the innermost one is closed and, maybe, the next arm of its conditional is opened. -/
def resumed (outer : List BodyFrame) : Option BodyFrame → List BodyFrame
  | some arm => push arm outer
  | none => completed outer

def nearestLoop? (frames : List BodyFrame) : Option BodyFrame :=
  (frames.takeWhile fun f => f.construct ≠ .entry).find? isLoop

end BodyFrame

namespace Body

open BodyM BodyFrame

open Grammar (Parsed)

variable {σ : Type} [Backend σ]

def expectMarked (labels : List Label) (line : Nat) : BodyM σ Unit := do
  lift ((← get).book.expectMarked labels line)

def required (f : BodyFrame) (label : Option Label) : BodyM σ Label :=
  match label with
  | some l => pure l
  | none => throw (.defect f.line (.missingLabel f.construct))

section Frames

variable (ctx : BodyContext) (lines : BodyLines)

def enter (f : BodyFrame) (ts : List Token) : BodyM σ (Parsed BodyFrame ts) := do
  changeNames Names.openScope
  return f.withBrace ts

/-- A frame with something in parentheses before its body.  `work` is also given the line of the token
after the parentheses. -/
def enterAfter (construct : Construct) (ts : List Token) (work : List Token → Nat → BodyM σ BodyFrame) :
    BodyM σ (Parsed BodyFrame ts) :=
  match h : Grammar.parenthesized lines construct ts with
  | .error d => throw d
  | .ok (header, after) => do
    let f ← work header (firstLine lines.stop after)
    let body ← enter f after
    return ⟨body.value, body.rest, Grammar.rest_le_of_parenthesized h body⟩

def enterIf (line : Nat) (ts : List Token) : BodyM σ (Parsed BodyFrame ts) :=
  enterAfter lines .ifArm ts fun test _ => do
    atLine line
    let otherwise ← armCondition ctx .ifArm (Grammar.conditionTerm line test) line
    return { construct := .ifArm, line, stop := some otherwise }

def enterElse (meeting : Label) (line : Nat) (ts : List Token) : BodyM σ (Parsed BodyFrame ts) :=
  match ts with
  | [] => enter { construct := .elseArm, line, meeting := some meeting } []
  | t :: rest =>
    if t.isKeyword .ifWord then do
      let arm ← enterAfter lines .elseIfArm rest fun test _ => do
        let otherwise ← armCondition ctx .elseIfArm (Grammar.conditionTerm line test) line
        return { construct := .elseIfArm, line, stop := some otherwise, meeting := some meeting }
      return ⟨arm.value, arm.rest, Nat.le_succ_of_le arm.rest_le⟩
    else enter { construct := .elseArm, line, meeting := some meeting } (t :: rest)

def enterWhile (line : Nat) (ts : List Token) : BodyM σ (Parsed BodyFrame ts) :=
  enterAfter lines .whileLoop ts fun test next => do
    atLine line
    let again ← newLabel .loopContinue Construct.whileLoop.text line
    let stop ← newLabel .loopEnd Construct.whileLoop.text line
    mark again next
    condition ctx (Grammar.conditionTerm line test) line
    write [.jumpIfFalse stop]
    return { construct := .whileLoop, line, again := some again, stop := some stop }

def enterFor (line : Nat) (ts : List Token) : BodyM σ (Parsed BodyFrame ts) :=
  enterAfter lines .forLoop ts fun header next =>
    match runsBetween .semicolon header with
    | [init, test, step] => do
      atLine line
      effects ctx (Term.listOfTokens line init)
      let top ← newLabel .loopTop Construct.forLoop.text line
      let again ← newLabel .loopContinue Construct.forLoop.text line
      let stop ← newLabel .loopEnd Construct.forLoop.text line
      mark top next
      if !test.isEmpty then
        condition ctx (.ofTokens line test) line
        write [.jumpIfFalse stop]
      return { construct := .forLoop, line, top := some top, again := some again, stop := some stop, step }
    | _ => throw (.syntactic line .expectedForHeader)

def enterDo (line : Nat) (ts : List Token) : BodyM σ (Parsed BodyFrame ts) := do
  atLine line
  let top ← newLabel .loopTop Construct.doLoop.text line
  let again ← newLabel .loopContinue Construct.doLoop.text line
  let stop ← newLabel .loopEnd Construct.doLoop.text line
  mark top (firstLine lines.stop ts)
  enter { construct := .doLoop, line, top := some top, again := some again, stop := some stop } ts

/-- The code between an arm and an `else`, with the arm after it. -/
def closeArm (f : BodyFrame) (line : Nat) (ts : List Token) : BodyM σ (Parsed BodyFrame ts) := do
  atLine line
  let otherwise ← required f f.stop
  let meeting ← meetingPoint f.meeting f.line
  write [.jump meeting]
  mark otherwise (firstLine lines.stop ts)
  expectMarked f.owned line
  enterElse ctx lines meeting line ts

def closeDo (f : BodyFrame) (ts : List Token) : BodyM σ (Parsed Unit ts) := do
  let line := firstLine lines.stop ts
  let test ← lift (Grammar.closingTest lines ts)
  let next := firstLine lines.stop test.rest
  atLine line
  let again ← required f f.again
  mark again next
  condition ctx test.value line
  let stop ← required f f.stop
  let top ← required f f.top
  write [.jumpIfFalse stop, .jump top]
  mark stop next
  return ⟨(), test.rest, test.rest_le⟩

/-- The code behind the body of a construct that no `else` follows. -/
def closingCode (f : BodyFrame) (ts : List Token) : BodyM σ (Parsed Unit ts) := do
  let line := firstLine lines.stop ts
  match f.construct with
  | .entry => throw (.defect line .entryClosed)
  | .block => pure ()
  | .ifArm | .elseIfArm =>
    atLine line
    let otherwise ← required f f.stop
    mark otherwise line
    markKnown f.meeting line
  | .elseArm =>
    atLine line
    let meeting ← required f f.meeting
    mark meeting line
  | .whileLoop =>
    atLine line
    let again ← required f f.again
    write [.jump again]
    let stop ← required f f.stop
    mark stop line
  | .forLoop =>
    atLine line
    let again ← required f f.again
    mark again line
    effects ctx (Term.listOfTokens f.line f.step)
    let top ← required f f.top
    write [.jump top]
    let stop ← required f f.stop
    mark stop line
  | .doLoop => return ← closeDo ctx lines f ts
  return .atStart ()

/-- Closes a frame that is not on the stack any more.  The result is the arm that an `else` opens. -/
def closeFrame (f : BodyFrame) (ts : List Token) : BodyM σ (Parsed (Option BodyFrame) ts) :=
  match ts with
  | [] => closed []
  | t :: rest =>
    if f.isArm && t.isKeyword .elseWord then do
      changeNames Names.closeScope
      let arm ← closeArm ctx lines f t.line rest
      return ⟨some arm.value, arm.rest, Nat.le_succ_of_le arm.rest_le⟩
    else closed (t :: rest)
where
  closed (ts : List Token) : BodyM σ (Parsed (Option BodyFrame) ts) := do
    changeNames Names.closeScope
    let after ← closingCode ctx lines f ts
    expectMarked f.owned (firstLine lines.stop ts)
    return ⟨none, after.rest, after.rest_le⟩

def closeFinished (frames : List BodyFrame) (ts : List Token) : BodyM σ (Parsed (List BodyFrame) ts) :=
  match frames with
  | [] => throw (.defect (firstLine lines.stop ts) .noFrame)
  | f :: outer =>
    if f.braced || !f.done then pure (.atStart (f :: outer))
    else do
      let after ← closeFrame ctx lines f ts
      match after.value with
      | some arm => return ⟨push arm outer, after.rest, after.rest_le⟩
      | none =>
        let further ← closeFinished (completed outer) after.rest
        return ⟨further.value, further.rest, Nat.le_trans further.rest_le after.rest_le⟩
termination_by frames.length

def closeBrace (frames : List BodyFrame) (t : Token) (rest : List Token) :
    BodyM σ (Parsed (List BodyFrame) rest) := do
  let ready ← closeFinished ctx lines frames (t :: rest)
  have hrest : ready.rest.tail.length ≤ rest.length := by
    have := ready.rest_le
    simp only [List.length_cons, List.length_tail] at this ⊢
    omega
  match ready.value with
  | [] => throw (.defect t.line .noFrame)
  | f :: outer =>
    if !f.braced then throw (.syntactic t.line (.statementBeforeBrace f.construct))
    else if f.construct = .entry then
      if ready.rest.tail.isEmpty then return .atEnd ({ f with done := true } :: outer)
      else throw (.syntactic t.line .strayBodyBrace)
    else
      let after ← closeFrame ctx lines f ready.rest.tail
      return ⟨resumed outer after.value, after.rest, Nat.le_trans after.rest_le hrest⟩

def loopControl (frames : List BodyFrame) (target : BodyFrame → Option Label) (word : Keyword) (line : Nat) :
    BodyM σ Unit :=
  match nearestLoop? frames with
  | none => throw (.syntactic line (.outsideLoop word))
  | some f =>
    match target f with
    | some label => write [.jump label]
    | none => throw (.defect line (.noLoopTarget word))

def plain (frames : List BodyFrame) (next : Nat) : Stmt → BodyM σ Unit
  | .expr term line => do
    atLine line
    expression ctx term line next
  | .breakLoop line => do
    atLine line
    loopControl frames BodyFrame.stop .breakWord line
  | .continueLoop line => do
    atLine line
    loopControl frames BodyFrame.again .continueWord line
  | s => statement ctx none s

def step (frames : List BodyFrame) (t : Token) (rest : List Token) : BodyM σ (Parsed (List BodyFrame) rest) :=
  match t.kind with
  | .closeBrace => closeBrace ctx lines frames t rest
  | .openBrace => do
    changeNames Names.openScope
    return .atStart (push { construct := .block, line := t.line, braced := true } frames)
  | .keyword .ifWord => opened (enterIf ctx lines t.line rest)
  | .keyword .whileWord => opened (enterWhile ctx lines t.line rest)
  | .keyword .forWord => opened (enterFor ctx lines t.line rest)
  | .keyword .doWord => opened (enterDo lines t.line rest)
  | .keyword .elseWord =>
    match frames with
    | [] => throw (.defect t.line .noFrame)
    | f :: _ => throw (.syntactic t.line (.loneElse f.construct))
  | _ =>
    match h : Grammar.plainStatement lines t rest with
    | .error d => throw d
    | .ok (s, after) => do
      plain ctx frames (firstLine lines.stop after) s
      return ⟨completed frames, after, Grammar.plainStatement_length h⟩
where
  opened {ts : List Token} (work : BodyM σ (Parsed BodyFrame ts)) : BodyM σ (Parsed (List BodyFrame) ts) := do
    let f ← work
    return ⟨push f.value frames, f.rest, f.rest_le⟩

def closeBody : List BodyFrame → BodyM σ Unit
  | [] => throw (.defect lines.stop .noFrame)
  | f :: _ =>
    if f.construct ≠ .entry then
      throw (.syntactic f.line (if f.braced then .missingBrace f.construct
        else .missingStatement f.construct))
    else if !f.done then throw (.syntactic f.line (.missingBrace .entry))
    else finish ctx lines.stop

def run (frames : List BodyFrame) (ts : List Token) : BodyM σ Unit := do
  let ready ← closeFinished ctx lines frames ts
  match _h : ready.rest with
  | [] => closeBody ctx lines ready.value
  | t :: rest =>
    let next ← step ctx lines ready.value t rest
    run next.value next.rest
termination_by ts.length
decreasing_by
  have := ready.rest_le
  have := next.rest_le
  rw [_h, List.length_cons] at *
  omega

end Frames

/-- Code of a body with its parameters.  It opens on line `start` and ends on line `stop`; `tokens` are
those after its opening brace.  The result are its local slots. -/
def compile (ctx : BodyContext) (params : List Param) (start stop : Nat) (tokens : List Token) :
    BodyM σ (List Param) := do
  changeNames fun n => n.beginBody.openScope
  declareParams start params
  run ctx ⟨lastLine stop tokens, stop⟩ [{ construct := .entry, line := start, braced := true }] tokens
  return (← get).names.locals

end Body

end WorldScript
