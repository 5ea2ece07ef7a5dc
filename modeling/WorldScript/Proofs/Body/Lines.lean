import WorldScript.Proofs.Body.Agreement
import WorldScript.Proofs.Script.WellFormed

/-! # Lines do not matter to code

What closes a construct belongs to the line of the token after it.  That line is noted with instructions
and with bound labels, and nothing that is done later depends on it.  So statements that differ in those
lines alone lead to the same instructions, the same bound positions and the same local slots, or to a
problem in both cases.
-/

namespace WorldScript

namespace Assembly

def unlined (a : Assembly) : Assembly := ⟨a.drafts.map fun d => { d with line := 0 }, a.targets, 0⟩

theorem write_unlined (a : Assembly) (i : Instr Label) : (a.write i).unlined = a.unlined.write i := by
  simp [write, unlined]

theorem writeAll_unlined (a : Assembly) (code : List (Instr Label)) :
    (Backend.writeAll a code).unlined = Backend.writeAll a.unlined code := by
  induction code generalizing a with
  | nil => rfl
  | cons i rest ih => exact (ih (a.write i)).trans (congrArg (Backend.writeAll · rest) (a.write_unlined i))

theorem place_unlined (a : Assembly) (label : Label) : (a.place label).unlined = a.unlined.place label := by
  simp [place, unlined]

end Assembly

def BodyState.unlined (s : BodyState Assembly) : BodyState Assembly :=
  ⟨s.names, s.book.unlined, s.jumps, s.backend.unlined⟩

theorem BodyState.names_eq {s t : BodyState Assembly} (h : s.unlined = t.unlined) : s.names = t.names :=
  (BodyState.mk.inj h).1

theorem BodyState.jumps_eq {s t : BodyState Assembly} (h : s.unlined = t.unlined) : s.jumps = t.jumps :=
  (BodyState.mk.inj h).2.2.1

variable {α β : Type}

def leftBehind : EStateM.Result Diagnostic (BodyState Assembly) α → Option (α × BodyState Assembly)
  | .ok a s => some (a, s.unlined)
  | .error _ _ => none

/-- From states that differ in lines alone, `x` and `y` have the same result and leave behind states that
differ in lines alone, or both have a problem. -/
def Alike (x y : BodyM Assembly α) : Prop :=
  ∀ s t : BodyState Assembly, s.unlined = t.unlined → leftBehind (x s) = leftBehind (y t)

namespace Alike

variable {x y z : BodyM Assembly α}

theorem symm (h : Alike x y) : Alike y x := fun s t hst => (h t s hst.symm).symm

theorem trans (h : Alike x y) (h' : Alike y z) : Alike x z := fun s t hst => (h s t hst).trans (h' t t rfl)

theorem pure (a : α) : Alike (pure a) (pure a) := fun _ _ h => congrArg (fun u => some (a, u)) h

theorem throw (d e : Diagnostic) : Alike (throw d : BodyM Assembly α) (throw e) := fun _ _ _ => rfl

theorem bind {f g : α → BodyM Assembly β} (hx : Alike x y) (hf : ∀ a, Alike (f a) (g a)) :
    Alike (x >>= f) (y >>= g) := by
  intro s t hst
  have h := hx s t hst
  cases hs : x s with
  | ok a s' =>
    cases ht : y t with
    | ok b t' =>
      rw [hs, ht] at h
      obtain ⟨rfl, hst'⟩ := Prod.mk.inj (Option.some.inj h)
      rw [run_bind_of_ok hs, run_bind_of_ok ht]
      exact hf a s' t' hst'
    | error d t' =>
      rw [hs, ht] at h
      cases h
  | error d s' =>
    cases ht : y t with
    | ok b t' =>
      rw [hs, ht] at h
      cases h
    | error e t' =>
      rw [run_bind_of_error hs, run_bind_of_error ht]
      rfl

theorem get_bind {f g : BodyState Assembly → BodyM Assembly α}
    (h : ∀ s t, s.unlined = t.unlined → Alike (f s) (g t)) : Alike (get >>= f) (get >>= g) :=
  fun s t hst => h s t hst s t hst

/-- Both do the same to what can be told of a state. -/
theorem of_unlined {F : BodyState Assembly → Option (α × BodyState Assembly)}
    (hx : ∀ s, leftBehind (x s) = F s.unlined) (hy : ∀ s, leftBehind (y s) = F s.unlined) : Alike x y :=
  fun s t hst => (hx s).trans ((congrArg F hst).trans (hy t).symm)

end Alike

namespace Body

open BodyM

theorem lift_alike {r r' : Except Diagnostic α} (h : r.toOption = r'.toOption) :
    Alike (lift r) (lift r') := by
  cases r with
  | ok a =>
    cases r' with
    | ok b =>
      cases h
      exact .pure a
    | error d => cases h
  | error d =>
    cases r' with
    | ok b => cases h
    | error e => exact .throw d e

theorem atLine_alike (line line' : Nat) : Alike (atLine line) (atLine line') :=
  .of_unlined (F := fun u => some ((), u)) (fun _ => rfl) fun _ => rfl

theorem write_alike (code : List (Instr Label)) : Alike (write code) (write code) := by
  have h (s : BodyState Assembly) : leftBehind (write code s) =
      some ((), { s.unlined with backend := Backend.writeAll s.unlined.backend code }) :=
    congrArg (fun b => some ((), BodyState.mk _ _ _ b)) (s.backend.writeAll_unlined code)
  exact .of_unlined (F := fun u => some ((), { u with backend := Backend.writeAll u.backend code })) h h

theorem newLabel_alike (purpose : LabelPurpose) (construct : String) (line : Nat) :
    Alike (newLabel purpose construct line) (newLabel purpose construct line) := by
  let F (u : BodyState Assembly) : Option (Label × BodyState Assembly) := some (u.backend.newLabel.1,
    { u with
      backend := u.backend.newLabel.2
      book := u.book.record u.backend.newLabel.1 ⟨purpose, construct, line⟩ })
  have h (s : BodyState Assembly) : leftBehind (newLabel purpose construct line s) = F s.unlined :=
    congrArg (fun b => some (_, BodyState.mk _ b _ _)) (s.book.record_unlined _ _)
  exact .of_unlined h h

theorem mark_alike (label : Label) (line line' : Nat) : Alike (mark label line) (mark label line') := by
  let F (u : BodyState Assembly) : Option (Unit × BodyState Assembly) :=
    (u.book.mark label 0).toOption.map fun book => ((), { u with book, backend := u.backend.place label })
  have h (line : Nat) (s : BodyState Assembly) : leftBehind (mark label line s) = F s.unlined := by
    have hmark := s.book.mark_unlined label line
    change leftBehind ((lift (s.book.mark label line) >>= fun book => set _ : BodyM Assembly Unit) s) =
      (s.book.unlined.mark label 0).toOption.map _
    rw [← hmark]
    cases s.book.mark label line with
    | error d => rfl
    | ok book => exact congrArg (fun b => some ((), BodyState.mk _ _ _ b)) (s.backend.place_unlined label)
  exact .of_unlined (h line) (h line')

theorem changeNames_alike (f : Names → Names) : Alike (changeNames f) (changeNames f) :=
  .of_unlined (F := fun u => some ((), { u with names := f u.names })) (fun _ => rfl) fun _ => rfl

theorem declare_alike (name : String) (ty : Ty) (line : Nat) :
    Alike (declare name ty line) (declare name ty line) := by
  let F (u : BodyState Assembly) : Option (Nat × BodyState Assembly) :=
    (u.names.declareLocal name ty line).toOption.map fun r => (r.1, { u with names := r.2 })
  have h (s : BodyState Assembly) : leftBehind (declare name ty line s) = F s.unlined := by
    change leftBehind ((lift (s.names.declareLocal name ty line) >>= fun r => _ : BodyM Assembly Nat) s) =
      (s.names.declareLocal name ty line).toOption.map _
    cases s.names.declareLocal name ty line with
    | error d => rfl
    | ok r => rfl
  exact .of_unlined h h

theorem markKnown_alike (label : Option Label) (line line' : Nat) :
    Alike (markKnown label line) (markKnown label line') := by
  cases label with
  | some l => exact mark_alike l line line'
  | none => exact .pure _

theorem loopJump_alike (target : Option Label) (word : Keyword) (line : Nat) :
    Alike (loopJump target word line) (loopJump target word line) := by
  cases target with
  | some label => exact write_alike _
  | none => exact .throw _ _

theorem nextArm_alike (meeting : Option Label) (otherwise : Label) (start line : Nat) :
    Alike (nextArm meeting otherwise start line) (nextArm meeting otherwise start line) := by
  have hmeeting : Alike (meetingPoint meeting start) (meetingPoint meeting start) := by
    cases meeting with
    | some label => exact .pure _
    | none => exact newLabel_alike _ _ _
  refine .bind (atLine_alike line line) fun _ => .bind hmeeting fun label => ?_
  exact .bind (write_alike _) fun _ => .bind (mark_alike otherwise line line) fun _ => .pure _

theorem inScope_alike {work work' : BodyM Assembly Unit} (h : Alike work work') :
    Alike (inScope work) (inScope work') :=
  .bind (changeNames_alike _) fun _ => .bind h fun _ => changeNames_alike _

theorem stepwise_alike : Stepwise fun {_} x => Alike x x where
  pure := .pure
  throw d := .throw d d
  bind := .bind
  reads hcongr hf := .get_bind fun s t hst => by
    rw [hcongr s t (BodyState.names_eq hst) (BodyState.jumps_eq hst)]
    exact hf t
  write := write_alike
  newLabel := newLabel_alike
  mark label line := mark_alike label line line
  atLine line := atLine_alike line line
  declare := declare_alike
  insertJump name j := .of_unlined (F := fun u => some ((), { u with jumps := u.jumps.insert name j }))
    (fun _ => rfl) fun _ => rfl

theorem finish_alike (ctx : BodyContext) (stop : Nat) :
    Alike (finish ctx stop : BodyM Assembly Unit) (finish ctx stop) := by
  refine stepwise_alike.finish ctx (.bind (changeNames_alike _) fun _ => .get_bind fun s t hst =>
    lift_alike ?_)
  have hb : s.book.unlined = t.book.unlined := congrArg BodyState.book hst
  rw [LabelBook.expectAllMarked_unlined, LabelBook.expectAllMarked_unlined t.book, hb]

end Body

mutual

def Stmt.detached : Stmt → Stmt
  | .block body => .block (Stmt.allDetached body)
  | .branch test body tail line => .branch test (Stmt.allDetached body) tail.detached line
  | .whileLoop test body line _ => .whileLoop test (Stmt.allDetached body) line 0
  | .forLoop init test step body line _ => .forLoop init test step (Stmt.allDetached body) line 0
  | .doLoop body test line last => .doLoop (Stmt.allDetached body) test line last
  | s => s

def Stmt.allDetached : List Stmt → List Stmt
  | [] => []
  | s :: rest => s.detached :: Stmt.allDetached rest

def Tail.detached : Tail → Tail
  | .done _ => .done 0
  | .elseIf test body tail line => .elseIf test (Stmt.allDetached body) tail.detached line
  | .elseArm body line _ => .elseArm (Stmt.allDetached body) line 0

end

namespace Body

open BodyM

mutual

/-- The lines where constructs are closed make no difference to the code. -/
theorem statement_detached (ctx : BodyContext) (loop : Option LoopLabels) (stmt : Stmt) :
    Alike (statement ctx loop stmt) (statement ctx loop stmt.detached) := by
  cases stmt with
  | empty => exact .pure _
  | block body => exact inScope_alike (statements_detached ctx loop body)
  | declare ty name init line =>
    exact .bind (atLine_alike line line) fun _ => stepwise_alike.declaration ctx ty name init line
  | expr term line =>
    exact .bind (atLine_alike line line) fun _ => stepwise_alike.expression ctx term line line
  | ret result line => exact .bind (atLine_alike line line) fun _ => stepwise_alike.returning ctx result line
  | changeState name line =>
    exact .bind (atLine_alike line line) fun _ => stepwise_alike.stateChange ctx name line
  | jump name line =>
    refine .bind (atLine_alike line line) fun _ => ?_
    exact .bind (stepwise_alike.jumpLabel name line) fun label => write_alike _
  | breakLoop line => exact .bind (atLine_alike line line) fun _ => loopJump_alike _ _ line
  | continueLoop line => exact .bind (atLine_alike line line) fun _ => loopJump_alike _ _ line
  | branch term body rest line =>
    refine .bind (atLine_alike line line) fun _ => ?_
    refine .bind (stepwise_alike.armCondition ctx .ifArm term line) fun otherwise => ?_
    refine .bind (inScope_alike (statements_detached ctx loop body)) fun _ => ?_
    exact conditionalTail_detached ctx loop none otherwise line rest
  | whileLoop term body line after =>
    refine .bind (atLine_alike line line) fun _ => ?_
    refine .bind (newLabel_alike _ _ line) fun again => .bind (newLabel_alike _ _ line) fun stop => ?_
    refine .bind (mark_alike again line line) fun _ =>
      .bind (stepwise_alike.condition ctx term line) fun _ => ?_
    refine .bind (write_alike _) fun _ => ?_
    refine .bind (inScope_alike (statements_detached ctx (some ⟨again, stop⟩) body)) fun _ => ?_
    exact .bind (atLine_alike after 0) fun _ => .bind (write_alike _) fun _ => mark_alike stop after 0
  | forLoop init test step body line after =>
    refine .bind (atLine_alike line line) fun _ => .bind (stepwise_alike.effects ctx init) fun _ => ?_
    refine .bind (newLabel_alike _ _ line) fun top => .bind (newLabel_alike _ _ line) fun again => ?_
    refine .bind (newLabel_alike _ _ line) fun stop => .bind (mark_alike top line line) fun _ => ?_
    have hrest := Alike.bind (inScope_alike (statements_detached ctx (some ⟨again, stop⟩) body)) fun _ =>
      .bind (atLine_alike after 0) fun _ => .bind (mark_alike again after 0) fun _ =>
        .bind (stepwise_alike.effects ctx step) fun _ => .bind (write_alike [.jump top]) fun _ =>
          mark_alike stop after 0
    cases test with
    | none => exact hrest
    | some term =>
      exact .bind (stepwise_alike.condition ctx term line) fun _ => .bind (write_alike _) fun _ => hrest
  | doLoop body term line test =>
    refine .bind (atLine_alike line line) fun _ => ?_
    refine .bind (newLabel_alike _ _ line) fun top => .bind (newLabel_alike _ _ line) fun again => ?_
    refine .bind (newLabel_alike _ _ line) fun stop => .bind (mark_alike top line line) fun _ => ?_
    refine .bind (inScope_alike (statements_detached ctx (some ⟨again, stop⟩) body)) fun _ => ?_
    refine .bind (atLine_alike test test) fun _ => .bind (mark_alike again test test) fun _ => ?_
    refine .bind (stepwise_alike.condition ctx term test) fun _ => .bind (write_alike _) fun _ => ?_
    exact mark_alike stop test test
  | broken problem => exact .throw _ _
termination_by structural stmt

theorem statements_detached (ctx : BodyContext) (loop : Option LoopLabels) (body : List Stmt) :
    Alike (statements ctx loop body) (statements ctx loop (Stmt.allDetached body)) := by
  cases body with
  | nil => exact .pure _
  | cons s rest => exact .bind (statement_detached ctx loop s) fun _ => statements_detached ctx loop rest
termination_by structural body

theorem conditionalTail_detached (ctx : BodyContext) (loop : Option LoopLabels) (meeting : Option Label)
    (otherwise : Label) (start : Nat) (tail : Tail) :
    Alike (conditionalTail ctx loop meeting otherwise start tail)
      (conditionalTail ctx loop meeting otherwise start tail.detached) := by
  cases tail with
  | done after =>
    refine .bind (atLine_alike after 0) fun _ => .bind (mark_alike otherwise after 0) fun _ => ?_
    exact markKnown_alike meeting after 0
  | elseIf term body rest line =>
    refine .bind (nextArm_alike meeting otherwise start line) fun label => ?_
    refine .bind (stepwise_alike.armCondition ctx .elseIfArm term line) fun next => ?_
    refine .bind (inScope_alike (statements_detached ctx loop body)) fun _ => ?_
    exact conditionalTail_detached ctx loop (some label) next line rest
  | elseArm body line after =>
    refine .bind (nextArm_alike meeting otherwise start line) fun label => ?_
    refine .bind (inScope_alike (statements_detached ctx loop body)) fun _ => ?_
    exact .bind (atLine_alike after 0) fun _ => mark_alike label after 0
termination_by structural tail

end

theorem statements_alike {ctx : BodyContext} {loop : Option LoopLabels} {body body' : List Stmt}
    (h : Stmt.allDetached body = Stmt.allDetached body') :
    Alike (statements ctx loop body) (statements ctx loop body') := by
  have h' := (statements_detached ctx loop body').symm
  rw [← h] at h'
  exact (statements_detached ctx loop body).trans h'

/-- Bodies that differ in those lines come to the same end. -/
theorem compileTree_alike (ctx : BodyContext) (params : List Param) (opening stop : Nat)
    {tokens tokens' : List Token}
    (h : Stmt.allDetached (Stmt.ofTokens opening stop tokens) = Stmt.allDetached
      (Stmt.ofTokens opening stop tokens')) :
    Alike (compileTree ctx params opening stop tokens) (compileTree ctx params opening stop tokens') := by
  refine .bind (changeNames_alike _) fun _ => .bind (stepwise_alike.declareParams opening params) fun _ => ?_
  refine .bind (statements_alike h) fun _ => .bind (finish_alike ctx stop) fun _ =>
    .get_bind fun s t hst => ?_
  rw [BodyState.names_eq hst]
  exact .pure _

end Body

def Chunk.unlined (k : Chunk) : Array (Instr Nat) × List Param := (k.code, k.locals)

/-- The instructions of finished code are those that were written, with positions for labels. -/
theorem Assembly.finish_code (a : Assembly) (locals : List Param) :
    (a.finish locals).toOption.map Chunk.unlined =
      ((a.drafts.toList.map Draft.instr).mapM (Instr.retarget a.target)).toOption.map fun code =>
        (code.toArray, locals) := by
  have hentries (drafts : List Draft) : (drafts.mapM a.finishEntry).toOption.map (List.map Entry.instr) =
      ((drafts.map Draft.instr).mapM (Instr.retarget a.target)).toOption := by
    induction drafts with
    | nil => rfl
    | cons d rest ih =>
      rw [List.mapM_cons, List.map_cons, List.mapM_cons, finishEntry]
      cases d.instr.retarget a.target with
      | error label => rfl
      | ok instr =>
        cases hrest : rest.mapM a.finishEntry with
        | error label =>
          rw [hrest] at ih
          cases hcode : (rest.map Draft.instr).mapM (Instr.retarget a.target) with
          | error other => rfl
          | ok code =>
            rw [hcode] at ih
            cases ih
        | ok entries =>
          rw [hrest] at ih
          cases hcode : (rest.map Draft.instr).mapM (Instr.retarget a.target) with
          | error label =>
            rw [hcode] at ih
            cases ih
          | ok code =>
            rw [hcode] at ih
            cases ih
            rfl
  rw [← hentries, finish]
  cases a.drafts.toList.mapM a.finishEntry with
  | error label => rfl
  | ok entries => simp [Chunk.unlined, Chunk.code, bind, Except.bind, pure, Except.pure, Except.toOption]

theorem Assembly.finish_unlined (a : Assembly) (locals : List Param) :
    (a.finish locals).toOption.map Chunk.unlined = (a.unlined.finish locals).toOption.map Chunk.unlined := by
  have hdrafts : a.unlined.drafts.toList.map Draft.instr = a.drafts.toList.map Draft.instr := by
    simp [unlined, Function.comp_def]
  rw [finish_code, finish_code, hdrafts]
  rfl

theorem Script.bodyCode_alike (ctx : BodyContext) (names : Names) (params : List Param) {body : Block}
    {tokens : List Token} (h : Stmt.allDetached (Stmt.ofTokens body.openLine body.closeLine body.tokens) =
      Stmt.allDetached (Stmt.ofTokens body.openLine body.closeLine tokens)) :
    (bodyCode .chunks ctx names params body).toOption.map Chunk.unlined =
      (bodyCode .chunks ctx names params { body with tokens }).toOption.map Chunk.unlined := by
  have hfinish (b : Block) : (bodyCode .chunks ctx names params b).toOption.map Chunk.unlined =
      (leftBehind (Body.compileTree ctx params b.openLine b.closeLine b.tokens
        (Body.start names Assembly.empty))).bind
          fun (locals, u) => (u.backend.finish locals).toOption.map Chunk.unlined := by
    cases hs : Body.compileTree ctx params b.openLine b.closeLine b.tokens
      (Body.start names Assembly.empty) with
    | error d s =>
      rw [bodyCode_of_error Body.assembly_reliable hs]
      rfl
    | ok locals s =>
      rw [bodyCode_of_ok Body.assembly_reliable hs]
      refine Eq.trans ?_ (s.backend.finish_unlined locals)
      change Option.map _ (Except.toOption (Except.mapError _ (s.backend.finish locals))) = _
      cases s.backend.finish locals with
      | error label => rfl
      | ok k => rfl
  rw [hfinish, hfinish]
  exact congrArg (Option.bind · _) (Body.compileTree_alike ctx params body.openLine body.closeLine h _ _ rfl)

end WorldScript
