import Mathlib.Logic.Relation
import WorldScript.Proofs.Body.Agreement

/-! # The stack of frames

While a body is worked off, the constructs that are open stand on a stack.  Whatever its tokens are, the
lowest frame is that of the body, which only the end of the body leaves; every frame above it has the labels
that its closing code needs; and there is one open scope for each of them.
-/

namespace WorldScript

namespace BodyFrame

def Equipped (f : BodyFrame) : Prop :=
  match f.construct with
  | .entry | .block => True
  | .ifArm => f.stop.isSome
  | .elseIfArm => f.stop.isSome ∧ f.meeting.isSome
  | .elseArm => f.meeting.isSome
  | .whileLoop => f.again.isSome ∧ f.stop.isSome
  | .forLoop | .doLoop => f.top.isSome ∧ f.again.isSome ∧ f.stop.isSome

/-- Constructs that have their labels, inside of a body in braces. -/
inductive Standing : List BodyFrame → Prop
  | body {f : BodyFrame} (hc : f.construct = .entry) (hb : f.braced = true) : Standing [f]
  | inner {f : BodyFrame} {outer : List BodyFrame} (hc : f.construct ≠ .entry) (hr : f.Equipped)
    (h : Standing outer) : Standing (f :: outer)

variable {f : BodyFrame} {outer frames : List BodyFrame}

theorem Standing.completed (h : Standing frames) : Standing (completed frames) := by
  cases h with
  | body hc hb =>
    rw [BodyFrame.completed, if_pos hb]
    exact .body hc hb
  | @inner f outer hc hr h =>
    rw [BodyFrame.completed]
    split
    · exact .inner hc hr h
    · exact .inner hc hr h

theorem Standing.push (h : Standing outer) (hc : f.construct ≠ .entry) (hr : f.Equipped) :
    Standing (push f outer) :=
  .inner hc hr h

/-- Only the frame of a construct can be complete without a brace. -/
theorem Standing.inside (h : Standing (f :: outer)) (hf : f.construct ≠ .entry) :
    f.Equipped ∧ Standing outer := by
  cases h with
  | body hc hb => exact absurd hc hf
  | inner hc hr h => exact ⟨hr, h⟩

theorem Standing.construct_ne (h : Standing (f :: outer)) (hf : (f.braced || !f.done) = false) :
    f.construct ≠ .entry := by
  cases h with
  | body hc hb => simp [hb] at hf
  | inner hc hr h => exact hc

end BodyFrame

/-- Work on a body at a point: its open frames, the tokens to come and what was done so far. -/
structure BodyConfig (σ : Type) where
  frames : List BodyFrame
  tokens : List Token
  state : BodyState σ

namespace Body

open BodyM BodyFrame

open Grammar (Parsed)

variable {σ : Type} {d : Nat}

/-- From `d` open scopes, `x` leads to results and open scopes with `Q`. -/
def Gives {α : Type} (d : Nat) (x : BodyM σ α) (Q : α → Nat → Prop) : Prop :=
  ∀ s a t, x s = .ok a t → s.names.scopes.length = d → Q a t.names.scopes.length

def Level {α : Type} (x : BodyM σ α) : Prop := ∀ d, Gives d x fun _ e => e = d

namespace Gives

variable {α β : Type} {d : Nat} {x : BodyM σ α} {Q R : α → Nat → Prop} {f : α → BodyM σ β}
  {S : β → Nat → Prop}

theorem pure {a : α} (h : Q a d) : Gives d (pure a : BodyM σ α) Q := by
  intro s b t ht hs
  obtain ⟨rfl, rfl⟩ := run_pure_ok ht
  rwa [hs]

theorem throw (c : Diagnostic) : Gives d (throw c : BodyM σ α) Q := fun _ _ _ h _ => nomatch h

theorem bind (hx : Gives d x Q) (hf : ∀ a e, Q a e → Gives e (f a) S) : Gives d (x >>= f) S := by
  intro s b u h hs
  obtain ⟨a, t, hat, hbu⟩ := run_bind_ok h
  exact hf a _ (hx s a t hat hs) t b u hbu rfl

theorem mono (hx : Gives d x Q) (h : ∀ a e, Q a e → R a e) : Gives d x R :=
  fun s a t ht hs => h a _ (hx s a t ht hs)

/-- Work that leaves the scopes as they are comes first. -/
theorem after (hx : Level x) (hf : ∀ a, Gives d (f a) S) : Gives d (x >>= f) S :=
  bind (hx d) fun a _ he => he ▸ hf a

theorem changeNames {n : Names → Names} {e : Nat} {Q : Unit → Nat → Prop}
    (hn : ∀ m, m.scopes.length = d → (n m).scopes.length = e) (h : Q () e) :
    Gives d (changeNames n : BodyM σ Unit) Q := by
  rintro s _ _ ⟨⟩ hs
  exact (hn s.names hs).symm ▸ h

end Gives

theorem openScope_gives : Gives d (changeNames Names.openScope : BodyM σ Unit) fun _ e => e = d + 1 :=
  .changeNames (fun _ h => congrArg (· + 1) h) rfl

theorem closeScope_gives : Gives (d + 1) (changeNames Names.closeScope : BodyM σ Unit) fun _ e => e = d :=
  .changeNames (fun m h => by simp [Names.closeScope, h]) rfl

theorem expectMarked_level (labels : List Label) (line : Nat) :
    Level (expectMarked labels line : BodyM σ Unit) := by
  intro d s a t h hs
  obtain ⟨u, v, hget, h⟩ := run_bind_ok h
  cases hget
  cases hb : s.book.expectMarked labels line with
  | error c =>
    rw [hb] at h
    cases h
  | ok _ =>
    rw [hb] at h
    cases h
    exact hs

theorem required_level (f : BodyFrame) (label : Option Label) : Level (required f label : BodyM σ Label) := by
  intro d
  cases label with
  | some l => exact .pure rfl
  | none => exact .throw _

theorem declareLocal_scopes {n m : Names} {name : String} {ty : Ty} {line slot : Nat}
    (h : n.declareLocal name ty line = .ok (slot, m)) : m.scopes.length = n.scopes.length := by
  unfold Names.declareLocal at h
  split at h
  · cases h
  · rename_i hscopes
    split at h
    · cases h
    · cases h
      simp [hscopes]

section Frames

variable [Backend σ]

/-- The steps of statements open no scope that they do not leave. -/
theorem stepwise_level : Stepwise fun {_} (x : BodyM σ _) => Level x where
  pure _ := fun _ => .pure rfl
  throw c := fun _ => .throw c
  bind hx hf := fun _ => .after hx fun a => hf a _
  reads _ hf := fun d s a t h hs => hf s d s a t h hs
  write _ := by
    rintro d s _ _ ⟨⟩ hs
    exact hs
  newLabel _ _ _ := by
    rintro d s _ _ ⟨⟩ hs
    exact hs
  mark label line := by
    intro d s a t h hs
    unfold mark at h
    rw [run_get_bind] at h
    cases hb : s.book.mark label line with
    | error c =>
      rw [hb] at h
      cases h
    | ok b =>
      rw [hb] at h
      cases h
      exact hs
  atLine _ := by
    rintro d s _ _ ⟨⟩ hs
    exact hs
  declare name ty line := by
    intro d s a t h hs
    unfold declare at h
    rw [run_get_bind] at h
    cases hn : s.names.declareLocal name ty line with
    | error c =>
      rw [hn] at h
      cases h
    | ok r =>
      rw [hn] at h
      cases h
      exact (declareLocal_scopes hn).trans hs
  insertJump _ _ := by
    rintro d s _ _ ⟨⟩ hs
    exact hs

variable {ctx : BodyContext} {lines : BodyLines} {f : BodyFrame} {outer frames : List BodyFrame}
  {ts : List Token}
  {d : Nat}

/-- A construct was entered: its frame has its labels, and it has a scope of its own. -/
def Entered (d : Nat) (p : Parsed BodyFrame ts) (e : Nat) : Prop :=
  e = d + 1 ∧ p.value.construct ≠ .entry ∧ p.value.Equipped

omit [Backend σ] in
theorem enter_gives (hc : f.construct ≠ .entry) (hr : f.Equipped) (ts : List Token) :
    Gives d (enter f ts : BodyM σ _) (Entered d) := by
  refine .bind openScope_gives fun _ e he => .pure ⟨he, ?_⟩
  unfold withBrace
  split
  · exact ⟨hc, hr⟩
  · split
    · exact ⟨hc, hr⟩
    · exact ⟨hc, hr⟩

omit [Backend σ] in
theorem enterAfter_gives {construct : Construct} {work : List Token → Nat → BodyM σ BodyFrame}
    (hwork : ∀ header next, Gives d (work header next) fun f e => e = d ∧ f.construct ≠ .entry ∧ f.Equipped) :
    Gives d (enterAfter lines construct ts work) (Entered d) := by
  unfold enterAfter
  split
  · exact .throw _
  · refine .bind (hwork _ _) fun f e hf => ?_
    obtain ⟨rfl, hc, hr⟩ := hf
    exact .bind (enter_gives hc hr _) fun body e hbody => .pure hbody

theorem enterIf_gives (line : Nat) : Gives d (enterIf ctx lines line ts : BodyM σ _) (Entered d) := by
  have hsteps := stepwise_level (σ := σ)
  refine enterAfter_gives fun test _ => .after (hsteps.atLine line) fun _ => ?_
  exact .after (hsteps.armCondition ctx _ _ _) fun otherwise => .pure ⟨rfl, by simp, by simp [Equipped]⟩

theorem enterElse_gives (meeting : Label) (line : Nat) :
    Gives d (enterElse ctx lines meeting line ts : BodyM σ _) (Entered d) := by
  have hsteps := stepwise_level (σ := σ)
  cases ts with
  | nil => exact enter_gives (by simp) (by simp [Equipped]) _
  | cons t rest =>
    rw [enterElse]
    split
    · refine .bind (enterAfter_gives fun test _ => ?_) fun arm e harm => .pure harm
      exact .after (hsteps.armCondition ctx _ _ _) fun otherwise => .pure ⟨rfl, by simp, by simp [Equipped]⟩
    · exact enter_gives (by simp) (by simp [Equipped]) _

theorem enterWhile_gives (line : Nat) : Gives d (enterWhile ctx lines line ts : BodyM σ _) (Entered d) := by
  have hsteps := stepwise_level (σ := σ)
  refine enterAfter_gives fun test next => .after (hsteps.atLine line) fun _ => ?_
  refine .after (hsteps.newLabel _ _ _) fun again => .after (hsteps.newLabel _ _ _) fun stop => ?_
  refine .after (hsteps.mark again next) fun _ => .after (hsteps.condition ctx _ _) fun _ => ?_
  exact .after (hsteps.write _) fun _ => .pure ⟨rfl, by simp, by simp [Equipped]⟩

theorem enterFor_gives (line : Nat) : Gives d (enterFor ctx lines line ts : BodyM σ _) (Entered d) := by
  have hsteps := stepwise_level (σ := σ)
  refine enterAfter_gives fun header next => ?_
  split
  · rename_i init test steps _
    refine .after (hsteps.atLine line) fun _ => .after (hsteps.effects ctx _) fun _ => ?_
    refine .after (hsteps.newLabel _ _ _) fun top => .after (hsteps.newLabel _ _ _) fun again => ?_
    refine .after (hsteps.newLabel _ _ _) fun stop => .after (hsteps.mark top next) fun _ => ?_
    have hframe : Equipped ⟨.forLoop, line, false, false, some top, some again, some stop, none, steps⟩ := by
      simp [Equipped]
    split
    · refine .after (hsteps.condition ctx _ _) fun _ => .after (hsteps.write _) fun _ => ?_
      exact .pure ⟨rfl, by simp, hframe⟩
    · exact .pure ⟨rfl, by simp, hframe⟩
  · exact .throw _

theorem enterDo_gives (line : Nat) : Gives d (enterDo lines line ts : BodyM σ _) (Entered d) := by
  have hsteps := stepwise_level (σ := σ)
  refine .after (hsteps.atLine line) fun _ => .after (hsteps.newLabel _ _ _) fun top => ?_
  refine .after (hsteps.newLabel _ _ _) fun again => .after (hsteps.newLabel _ _ _) fun stop => ?_
  exact .after (hsteps.mark top _) fun _ => enter_gives (by simp) (by simp [Equipped]) _

theorem closeDo_level (f : BodyFrame) (ts : List Token) : Level (closeDo ctx lines f ts : BodyM σ _) := by
  have hsteps := stepwise_level (σ := σ)
  refine hsteps.bind (hsteps.lift _) fun test => hsteps.bind (hsteps.atLine _) fun _ => ?_
  refine hsteps.bind (required_level f _) fun again => hsteps.bind (hsteps.mark again _) fun _ => ?_
  refine hsteps.bind (hsteps.condition ctx _ _) fun _ => hsteps.bind (required_level f _) fun stop => ?_
  refine hsteps.bind (required_level f _) fun top => hsteps.bind (hsteps.write _) fun _ => ?_
  exact hsteps.bind (hsteps.mark stop _) fun _ => hsteps.pure _

/-- The code that closes a construct opens and closes no scope. -/
theorem closingCode_level (f : BodyFrame) (ts : List Token) :
    Level (closingCode ctx lines f ts : BodyM σ _) := by
  have hsteps := stepwise_level (σ := σ)
  have harm (line : Nat) : Level (do
      atLine line
      let otherwise ← required f f.stop
      mark otherwise line
      markKnown f.meeting line
      return (.atStart () : Parsed Unit ts) : BodyM σ _) := by
    refine hsteps.bind (hsteps.atLine _) fun _ => hsteps.bind (required_level f _) fun otherwise => ?_
    refine hsteps.bind (hsteps.mark otherwise _) fun _ => hsteps.bind ?_ fun _ => hsteps.pure _
    cases f.meeting with
    | some label => exact hsteps.mark label _
    | none => exact hsteps.pure _
  unfold closingCode
  cases f.construct with
  | entry => exact hsteps.throw _
  | block => exact hsteps.pure _
  | ifArm => exact harm _
  | elseIfArm => exact harm _
  | elseArm =>
    refine hsteps.bind (hsteps.atLine _) fun _ => hsteps.bind (required_level f _) fun meeting => ?_
    exact hsteps.bind (hsteps.mark meeting _) fun _ => hsteps.pure _
  | whileLoop =>
    refine hsteps.bind (hsteps.atLine _) fun _ => hsteps.bind (required_level f _) fun again => ?_
    refine hsteps.bind (hsteps.write _) fun _ => hsteps.bind (required_level f _) fun stop => ?_
    exact hsteps.bind (hsteps.mark stop _) fun _ => hsteps.pure _
  | forLoop =>
    refine hsteps.bind (hsteps.atLine _) fun _ => hsteps.bind (required_level f _) fun again => ?_
    refine hsteps.bind (hsteps.mark again _) fun _ => hsteps.bind (hsteps.effects ctx _) fun _ => ?_
    refine hsteps.bind (required_level f _) fun top => hsteps.bind (hsteps.write _) fun _ => ?_
    exact hsteps.bind (required_level f _) fun stop => hsteps.bind (hsteps.mark stop _) fun _ => hsteps.pure _
  | doLoop => exact closeDo_level f ts

theorem closeArm_gives (f : BodyFrame) (line : Nat) :
    Gives d (closeArm ctx lines f line ts : BodyM σ _) (Entered d) := by
  have hsteps := stepwise_level (σ := σ)
  refine .after (hsteps.atLine line) fun _ => .after (required_level f _) fun otherwise => ?_
  have hmeeting : Level (meetingPoint f.meeting f.line : BodyM σ Label) := by
    cases f.meeting with
    | some label => exact hsteps.pure label
    | none => exact hsteps.newLabel _ _ _
  refine .after hmeeting fun meeting => .after (hsteps.write _) fun _ =>
    .after (hsteps.mark otherwise _) fun _ => ?_
  exact .after (expectMarked_level _ _) fun _ => enterElse_gives meeting line

def Kept (frames : List BodyFrame) (e : Nat) : Prop := Standing frames ∧ e = frames.length

/-- A frame that is closed takes its scope with it; the next arm of a conditional has a new one. -/
theorem closeFrame_gives (h : Standing outer) (f : BodyFrame) :
    Gives (outer.length + 1) (closeFrame ctx lines f ts : BodyM σ _) fun p e =>
      Kept (resumed outer p.value) e := by
  have hclosed (ts : List Token) :
      Gives (outer.length + 1) (closeFrame.closed ctx lines f ts : BodyM σ _) fun p e =>
      Kept (resumed outer p.value) e := by
    refine .bind closeScope_gives fun _ e he => ?_
    refine .after (closingCode_level f ts) fun after => .after (expectMarked_level _ _) fun _ => ?_
    exact .pure ⟨h.completed, by rw [he, resumed, completed_length]⟩
  cases ts with
  | nil => exact hclosed []
  | cons t rest =>
    rw [closeFrame]
    split
    · refine .bind closeScope_gives fun _ e he => .bind (closeArm_gives f _) fun arm _ harm => ?_
      obtain ⟨rfl, hc, hr⟩ := harm
      exact .pure ⟨h.push hc hr, by rw [he]; rfl⟩
    · exact hclosed _

omit [Backend σ] in
theorem opened_gives (h : Standing frames) {work : BodyM σ (Parsed BodyFrame ts)}
    (hwork : Gives frames.length work (Entered frames.length)) :
    Gives frames.length (step.opened frames work) fun p e => Kept p.value e := by
  refine .bind hwork fun p e hp => ?_
  obtain ⟨rfl, hc, hr⟩ := hp
  exact .pure ⟨h.push hc hr, rfl⟩

theorem closeBrace_gives (h : Standing frames)
    (hopen : ∀ f outer, frames = f :: outer → (f.braced || !f.done) = true) (t : Token) (rest : List Token) :
    Gives frames.length (closeBrace ctx lines frames t rest : BodyM σ _) fun p e => Kept p.value e := by
  match frames, h with
  | f :: outer, h =>
    unfold closeBrace
    rw [closeFinished_open (hopen f outer rfl), pure_bind, Parsed.atStart]
    dsimp only
    split
    · exact .throw _
    · split
      · rename_i hb hc
        split
        · cases h with
          | body _ hbraced => exact .pure ⟨.body hc hbraced, rfl⟩
          | inner hne => exact absurd hc hne
        · exact .throw _
      · rename_i hc
        refine .bind (closeFrame_gives (h.inside hc).2 f) fun after e he => ?_
        exact .pure he

theorem plain_level {rest : List Token} {stmt : Stmt} (h : Grammar.Plain ts stmt rest) (next : Nat) :
    Level (plain ctx frames next stmt : BodyM σ Unit) := by
  have hsteps := stepwise_level (σ := σ)
  have hcontrol (target : BodyFrame → Option Label) (word : Keyword) (line : Nat) :
      Level (loopControl frames target word line : BodyM σ Unit) := by
    unfold loopControl
    split
    · exact hsteps.throw _
    · split
      · exact hsteps.write _
      · exact hsteps.throw _
  cases h with
  | empty => exact hsteps.pure ()
  | declare | declareInit => exact hsteps.bind (hsteps.atLine _) fun _ => hsteps.declaration ctx _ _ _ _
  | expr => exact hsteps.bind (hsteps.atLine _) fun _ => hsteps.expression ctx _ _ _
  | ret | retValue => exact hsteps.bind (hsteps.atLine _) fun _ => hsteps.returning ctx _ _
  | changeState => exact hsteps.bind (hsteps.atLine _) fun _ => hsteps.stateChange ctx _ _
  | jump =>
    exact hsteps.bind (hsteps.atLine _) fun _ => hsteps.bind (hsteps.jumpLabel _ _) fun _ => hsteps.write _
  | breakLoop => exact hsteps.bind (hsteps.atLine _) fun _ => hcontrol _ _ _
  | continueLoop => exact hsteps.bind (hsteps.atLine _) fun _ => hcontrol _ _ _

/-- One step keeps the stack in order, with a scope for each frame. -/
theorem step_gives (h : Standing frames)
    (hopen : ∀ f outer, frames = f :: outer → (f.braced || !f.done) = true) (t : Token) (rest : List Token) :
    Gives frames.length (step ctx lines frames t rest : BodyM σ _) fun p e => Kept p.value e := by
  rw [step.eq_def]
  split
  · exact closeBrace_gives h hopen t rest
  · exact .bind openScope_gives fun _ e he => .pure ⟨h.push (by simp) trivial, he⟩
  · exact opened_gives h (enterIf_gives _)
  · exact opened_gives h (enterWhile_gives _)
  · exact opened_gives h (enterFor_gives _)
  · exact opened_gives h (enterDo_gives _)
  · split
    · exact .throw _
    · exact .throw _
  · split
    · exact .throw _
    · rename_i hp
      have hs : Grammar.startsConstruct t = false := by
        unfold Grammar.startsConstruct
        split <;> simp_all
      refine .after (plain_level (Grammar.plain_of_plainStatement hs hp) _) fun _ => ?_
      exact .pure ⟨h.completed, (completed_length _).symm⟩

end Frames

end Body

namespace BodyConfig

open BodyM BodyFrame

variable {σ : Type} [Backend σ] {params : List Param} {opening : Nat} {tokens : List Token} {names : Names}
  {b : σ}

section Definitions

variable (ctx : BodyContext) (lines : BodyLines)

/-- A frame that is complete is closed; otherwise a statement is worked off, or the next frame opened. -/
inductive Advances : BodyConfig σ → BodyConfig σ → Prop
  | close {f : BodyFrame} {outer : List BodyFrame} {ts : List Token} {s t : BodyState σ}
    {after : Grammar.Parsed (Option BodyFrame) ts} (hf : (f.braced || !f.done) = false)
    (h : Body.closeFrame ctx lines f ts s = .ok after t) :
    Advances ⟨f :: outer, ts, s⟩ ⟨resumed outer after.value, after.rest, t⟩
  | step {f : BodyFrame} {outer : List BodyFrame} {token : Token} {ts : List Token} {s t : BodyState σ}
    {next : Grammar.Parsed (List BodyFrame) ts} (hf : (f.braced || !f.done) = true)
    (h : Body.step ctx lines (f :: outer) token ts s = .ok next t) :
    Advances ⟨f :: outer, token :: ts, s⟩ ⟨next.value, next.rest, t⟩

/-- The stack stands as it should, with a scope for each frame, and what is still to be done cannot fail
with a defect. -/
structure Intact (c : BodyConfig σ) : Prop where
  standing : Standing c.frames
  scopes : c.state.names.scopes.length = c.frames.length
  blames : ∀ d s, Body.run ctx lines c.frames c.tokens c.state = .error d s → d.cause.kind ≠ .internal

end Definitions

structure Opens (params : List Param) (opening : Nat) (tokens : List Token) (names : Names) (b : σ)
    (c : BodyConfig σ) : Prop where
  frames : c.frames = [{ construct := .entry, line := opening, braced := true }]
  tokens : c.tokens = tokens
  state : (do changeNames fun n => n.beginBody.openScope; Body.declareParams opening params : BodyM σ Unit)
    (Body.start names b) =
    .ok () c.state

variable {ctx : BodyContext} {lines : BodyLines} {c c' : BodyConfig σ}

theorem Advances.kept (h : c.Advances ctx lines c') (hc : Body.Kept c.frames c.state.names.scopes.length) :
    Body.Kept c'.frames c'.state.names.scopes.length := by
  obtain ⟨hstanding, hscopes⟩ := hc
  cases h with
  | @close f outer ts s t after hf h =>
    have houter := (hstanding.inside (hstanding.construct_ne hf)).2
    exact Body.closeFrame_gives houter f s after t h hscopes
  | @step f outer token ts s t next hf h =>
    refine Body.step_gives hstanding (fun g rest hg => ?_) token ts s next t h hscopes
    cases hg
    exact hf

/-- What is still to be done is the same after a step. -/
theorem Advances.run_eq (h : c.Advances ctx lines c') :
    Body.run ctx lines c.frames c.tokens c.state = Body.run ctx lines c'.frames c'.tokens c'.state := by
  cases h with
  | @close f outer ts s t after hf h =>
    obtain ⟨hb, hd⟩ := Bool.or_eq_false_iff.mp hf
    have hdone : completed (f :: outer) = f :: outer := by
      rw [completed, if_neg (by simp [hb])]
      cases f
      simp_all
    have hrun : (Body.run ctx lines (f :: outer) ts : BodyM σ Unit) = Body.closing ctx lines f outer ts := by
      rw [← Body.run_completed hb, hdone]
    change Body.run ctx lines (f :: outer) ts s = _
    rw [hrun]
    exact run_bind_of_ok h
  | @step f outer token ts s t next hf h =>
    change Body.run ctx lines (f :: outer) (token :: ts) s = _
    rw [Body.run_open hf]
    exact run_bind_of_ok h

theorem Opens.kept (h : c.Opens params opening tokens names b) :
    Body.Kept c.frames c.state.names.scopes.length := by
  have hgives : Body.Gives (Body.start names b).names.scopes.length
      (do changeNames fun n => n.beginBody.openScope; Body.declareParams opening params : BodyM σ Unit)
        fun _ e => e = 1 := by
    refine .bind (.changeNames (fun _ _ => rfl) rfl) fun _ e (he : e = 1) => ?_
    exact (Body.stepwise_level.declareParams opening params e).mono fun _ _ h => h.trans he
  rw [h.frames]
  exact ⟨.body rfl rfl, hgives _ _ _ h.state rfl⟩

/-- However far the work on a body is, its stack is as it should be. -/
theorem Opens.intact {issued : σ → Nat} (hb : Body.Reliable issued b) {stop : Nat}
    (h : c.Opens params opening tokens names b)
    (hc : Relation.ReflTransGen (Advances ctx ⟨lastLine stop tokens, stop⟩) c c') :
    c'.Intact ctx ⟨lastLine stop tokens, stop⟩ := by
  have hreached : Body.Kept c'.frames c'.state.names.scopes.length ∧
      Body.run ctx ⟨lastLine stop tokens, stop⟩ c.frames c.tokens c.state =
        Body.run ctx ⟨lastLine stop tokens, stop⟩ c'.frames c'.tokens c'.state := by
    induction hc with
    | refl => exact ⟨h.kept, rfl⟩
    | tail _ hstep ih => exact ⟨hstep.kept ih.1, ih.2.trans hstep.run_eq⟩
  obtain ⟨⟨hstanding, hscopes⟩, hrun⟩ := hreached
  refine ⟨hstanding, hscopes, fun d s herror => ?_⟩
  rw [← hrun, h.frames, h.tokens] at herror
  have hcompile : Body.compile ctx params opening stop tokens (Body.start names b) = .error d s := by
    unfold Body.compile
    rw [← bind_assoc, run_bind_of_ok h.state, run_bind_of_error herror]
  obtain ⟨t, htree, -⟩ := Body.compile_error hb hcompile
  exact hb.blames htree

end BodyConfig

end WorldScript
