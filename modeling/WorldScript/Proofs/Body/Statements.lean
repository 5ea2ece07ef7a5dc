import WorldScript.Proofs.Body.Layout

/-! # Statements are laid out for their actions

The code of a statement without jumps is laid out for the action that the statement stands for, as soon
as its labels are bound.  The proof takes the statements apart; a conditional and a loop rest on what is
known of their bodies.
-/

namespace WorldScript

def Term.isLabel : Term → Bool
  | .label _ _ => true
  | _ => false

mutual

def Stmt.jumpFree : Stmt → Bool
  | .expr t _ => !t.isLabel
  | .jump _ _ => false
  | .block body => Stmt.allJumpFree body
  | .branch _ body tail _ => Stmt.allJumpFree body && tail.jumpFree
  | .whileLoop _ body _ _ => Stmt.allJumpFree body
  | .forLoop _ _ _ body _ _ => Stmt.allJumpFree body
  | .doLoop body _ _ _ => Stmt.allJumpFree body
  | .empty | .declare _ _ _ _ | .ret _ _ | .changeState _ _ | .breakLoop _ | .continueLoop
    _ | .broken _ => true
termination_by structural s => s

def Stmt.allJumpFree : List Stmt → Bool
  | [] => true
  | s :: rest => s.jumpFree && Stmt.allJumpFree rest
termination_by structural ss => ss

def Tail.jumpFree : Tail → Bool
  | .done _ => true
  | .elseIf _ body tail _ => Stmt.allJumpFree body && tail.jumpFree
  | .elseArm body _ _ => Stmt.allJumpFree body
termination_by structural t => t

end

namespace Env

variable {env : Env} {name : String}
theorem callExpr_call {args : List Expr} {line : Nat} {e : Expr} (h : env.callExpr name args line = .ok e) :
    ∃ info callee args, e = .call info callee args := by
  simp only [callExpr, bind_ok] at h
  obtain ⟨types, -, h⟩ := h
  split at h
  · split at h
    · simp only [scriptCall] at h
      split at h
      · simp only [bind_ok, pure_ok] at h
        obtain ⟨converted, -, rfl⟩ := h
        exact ⟨_, _, _, rfl⟩
      · cases h
    · cases h
  · simp only [hostCall, bind_ok, pure_ok] at h
    obtain ⟨f, -, rfl⟩ := h
    exact ⟨_, _, _, rfl⟩

/-- Only a label stands for a label. -/
theorem elaborate_label {t : Term} {info : Info} (h : env.elaborate t = .ok (.label info name)) :
    t.isLabel = true := by
  cases t with
  | label => rfl
  | literal value line => cases h
  | name n line =>
    simp only [elaborate, nameExpr] at h
    grind [Expr.ofValue]
  | call n args line =>
    simp only [elaborate, bind_ok] at h
    obtain ⟨args, -, h⟩ := h
    obtain ⟨_, _, _, he⟩ := callExpr_call h
    cases he
  | list items line =>
    simp only [elaborate, Expr.ofItems, bind_ok, pure_ok] at h
    grind
  | angle parts line =>
    simp only [elaborate, Expr.ofParts, bind_ok] at h
    grind
  | cast target operand line =>
    simp only [elaborate, Expr.ofCast, bind_ok] at h
    grind [pure_ok]
  | unary op operand line =>
    simp only [elaborate, Expr.ofUnary, bind_ok] at h
    grind [pure_ok, Expr.ofValue]
  | step s first operand line =>
    simp only [elaborate, bind_ok] at h
    obtain ⟨_, -, h⟩ := h
    unfold Expr.ofStep at h
    split at h
    · cases h
    · obtain ⟨_, -, h⟩ := bind_ok.mp h
      split at h
      · cases h
      · cases h
  | member base n line =>
    simp only [elaborate, Expr.ofMember, bind_ok] at h
    grind [pure_ok]
  | binary op left right line =>
    simp only [elaborate, Expr.ofBinary, bind_ok, pure_ok] at h
    grind
  | assign assignment target value line =>
    simp only [elaborate, bind_ok] at h
    obtain ⟨_, -, _, -, h⟩ := h
    unfold Expr.ofAssign at h
    split at h
    · cases h
    · simp only [bind_ok] at h
      obtain ⟨_, -, _, -, h⟩ := h
      obtain ⟨op⟩ := assignment
      cases op with
      | none =>
        obtain ⟨_, -, h⟩ := bind_ok.mp h
        split at h
        · cases h
        · cases h
      | some op =>
        obtain ⟨_, -, h⟩ := bind_ok.mp h
        split at h
        · cases h
        · cases h
  | broken problem => cases h
  | brokenAfter before problem =>
    simp only [elaborate, bind_ok] at h
    grind
end Env

namespace Body

open BodyM

variable {w : World} {ctx : BodyContext} {s t u : BodyState Assembly} {a : Unit} {loop : Option LoopLabels}
  {read : Names → Option (Action × Names)} {work : BodyM Assembly Unit}

def EndsOf (resolve : Label → Except Label Nat) (loop : Option LoopLabels) (ends : LoopEnds) : Prop :=
  ∀ l, loop = some l → resolve l.again = .ok ends.again ∧ resolve l.stop = .ok ends.stop

/-- Work whose code is laid out for the action that is read from the names before it. -/
def Lays (w : World) (loop : Option LoopLabels) (read : Names → Option (Action × Names))
    (s t : BodyState Assembly) : Prop :=
  s.Leads w t ∧ ∃ action, read s.names = some (action, t.names) ∧
    ∀ (k : Chunk) (resolve : Label → Except Label Nat) (ends : LoopEnds), k.Completes resolve t →
      EndsOf resolve loop ends → action.Laid w k ends s.position t.position

def AlwaysLays (w : World) (loop : Option LoopLabels) (read : Names → Option (Action × Names))
    (work : BodyM Assembly Unit) : Prop :=
  ∀ s a t, s.Ready w → work s = .ok a t → Lays w loop read s t

theorem inScope_lays (hw : AlwaysLays w loop read work) :
    AlwaysLays w loop (fun n => n.inScope? read) (inScope work) := by
  intro s a t hs h
  obtain ⟨_, s₁, h₁, h⟩ := run_bind_ok h
  obtain ⟨hl₁, hc₁, hn₁⟩ := changeNames_leads (f := Names.openScope) (fun _ => rfl) hs h₁
  obtain ⟨_, s₂, h₂, h⟩ := run_bind_ok h
  obtain ⟨hl₂, action, hread, hlaid⟩ := hw s₁ _ s₂ hl₁.ready h₂
  obtain ⟨hl₃, hc₃, hn₃⟩ := changeNames_leads (f := Names.closeScope) (fun _ => rfl) hl₂.ready h
  refine ⟨hl₁.trans (hl₂.trans hl₃), action, ?_, ?_⟩
  · rw [hn₁] at hread
    simp [Names.inScope?, hread, hn₃]
  · intro k resolve ends hk he
    have hp : s₁.position = s.position := congrArg List.length hc₁
    have hq : t.position = s₂.position := congrArg List.length hc₃
    rw [← hp, hq]
    exact hlaid k resolve ends (hk.before hl₃) he

theorem afterLine_lays (line : Nat) (hw : AlwaysLays w loop read work) :
    AlwaysLays w loop read (do atLine line; work) := by
  intro s a t hs h
  obtain ⟨_, s₁, h₁, h⟩ := run_bind_ok h
  have hw₁ : s.Writes w [] s₁ := atLine_writes hs h₁
  obtain ⟨hl, action, hread, hlaid⟩ := hw s₁ a t hw₁.leads.ready h
  have hp : s₁.position = s.position := hw₁.position
  rw [hw₁.names] at hread
  refine ⟨hw₁.leads.trans hl, action, hread, ?_⟩
  intro k resolve ends hk he
  rw [← hp]
  exact hlaid k resolve ends hk he

section Statements

variable (hn : Numbered ctx.registry.functions) (hreg : w.registry = ctx.registry) {term : Term}
  {line start after : Nat} {otherwise : Label} {meeting : Option Label} {body : List Stmt} {e : Expr}
  {tail : Tail}

theorem expr?_of_ok {n : Names} (h : Env.elaborate ⟨ctx.registry, ctx.visibility, n⟩ term = .ok e) :
    n.expr? ctx term = some e := by
  rw [Names.expr?, h]
  rfl

/-- A value that becomes the first value of a new local. -/
theorem declareStore_laid {e : Expr} {name : String} {ty : Ty} {line : Nat} (hv : Computes w e s u)
    (h : (do let slot ← declare name ty line; write [.store (.loc slot)] : BodyM Assembly Unit) u = .ok a t) :
    ∃ slot, u.names.declareLocal name ty line = .ok (slot, t.names) ∧ s.Leads w t ∧
      ∀ (k : Chunk) (resolve : Label → Except Label Nat) (ends : LoopEnds), k.Completes resolve t →
        (Action.init slot e).Laid w k ends s.position t.position := by
  obtain ⟨code, hw⟩ := hv.writes
  obtain ⟨slot, s₁, h₁, h⟩ := run_bind_ok h
  obtain ⟨hl₁, hc₁, hd⟩ := declare_leads hw.leads.ready h₁
  have hw₂ : s₁.Writes w [.store (.loc slot)] t := write_writes hl₁.ready h
  rw [← hw₂.names] at hd
  refine ⟨slot, hd, hw.leads.trans (hl₁.trans hw₂.leads), ?_⟩
  intro k resolve ends hk
  have hq : s₁.position = u.position := congrArg List.length hc₁
  have hstore : k.Has u.position (.store (.loc slot)) := by
    rw [← hq]
    exact (hk.written hw₂.code).has rfl
  have hvalue := hv.valueAt k resolve (hk.before (hl₁.trans hw₂.leads))
  have hp : t.position = u.position + 1 := by
    rw [hw₂.position, hq]
    rfl
  rw [hp]
  exact .init hvalue hstore

include hn hreg in
theorem valueOf_computes {target found : Ty} (hs : s.Ready w)
    (he : Env.elaborate ⟨ctx.registry, ctx.visibility, s.names⟩ term = .ok e) (ht : e.ty = some found)
    (ha : target.accepts found = true) (h : valueOf target e s = .ok a t) :
    Computes w (e.convertedTo target) s t := by
  have hwell : e.WellTyped (s.names.layout ctx.registry.functions) := Env.elaborate_wellTyped hn he
  exact liftWrite_computes hreg hs (hwell.convertedTo ht ha) (Expr.convertedTo_ty e target) h

include hn hreg in
theorem declaration_lays (ty : Ty) (name : String) (init : Option Term) (line : Nat) :
    AlwaysLays w loop (Stmt.action? ctx (.declare ty name init line))
      (declaration ctx ty name init line) := by
  intro s a t hs h
  cases init with
  | none =>
    have hlit : (Expr.ofValue ty.defaultValue line).WellTyped (s.names.layout ctx.registry.functions) :=
      .literal _
    obtain ⟨_, u, hu, h⟩ := run_bind_ok h
    have hv : Computes w (.ofValue ty.defaultValue line) s u := liftWrite_computes hreg hs hlit rfl hu
    obtain ⟨code, hw⟩ := hv.writes
    obtain ⟨slot, hd, hl, hlaid⟩ := declareStore_laid hv h
    rw [hw.names] at hd
    refine ⟨hl, _, ?_, fun k resolve ends hk _ => hlaid k resolve ends hk⟩
    simp [Stmt.action?, hd, Except.toOption]
  | some term =>
    obtain ⟨⟨e, found⟩, u, hu, h⟩ := run_bind_ok h
    obtain ⟨he, ht, rfl⟩ := value_ok hu
    by_cases ha : ty.accepts found = true
    · simp only [ha, if_true] at h
      obtain ⟨_, u, hu, h⟩ := run_bind_ok h
      have hv : Computes w (e.convertedTo ty) s u := valueOf_computes hn hreg hs he ht ha hu
      obtain ⟨code, hw⟩ := hv.writes
      obtain ⟨slot, hd, hl, hlaid⟩ := declareStore_laid hv h
      rw [hw.names] at hd
      refine ⟨hl, _, ?_, fun k resolve ends hk _ => hlaid k resolve ends hk⟩
      simp [Stmt.action?, expr?_of_ok he, hd, Except.toOption]
    · simp only [ha] at h
      cases h

include hn hreg in
theorem expression_lays (hl : term.isLabel = false) (line : Nat) :
    AlwaysLays w loop (Stmt.action? ctx (.expr term line)) (expression ctx term line line) := by
  intro s a t hs h
  obtain ⟨e, u, hu, h⟩ := run_bind_ok h
  obtain ⟨he, rfl⟩ := elaborate_ok hu
  have heffect : effect e s = .ok a t := by
    cases e with
    | label info name => simp [Env.elaborate_label he] at hl
    | literal | load | member | unary | binary | assign | step | cast | convert | call | vector
    | rotation | list =>
      exact h
  have hp : Performs w [e] s t := effect_performs hreg hs (Env.elaborate_wellTyped hn he) heffect
  obtain ⟨code, hw⟩ := hp.writes
  refine ⟨hw.leads, .effects [e], ?_, ?_⟩
  · simp [Stmt.action?, expr?_of_ok he, hw.names]
  · intro k resolve ends hk _
    exact .effects (hp.effectAt k resolve hk)

theorem loopJump_lays {target : LoopLabels → Label} {action : Action} {word : Keyword} (line : Nat)
    (hlaid : ∀ (k : Chunk) (resolve : Label → Except Label Nat) (ends : LoopEnds) (l : LoopLabels) (p : Nat),
      loop = some l → EndsOf resolve loop ends → k.Holds resolve p [.jump (target l)] →
      action.Laid w k ends p (p + 1)) :
    AlwaysLays w loop (fun n => some (action, n)) (loopJump (loop.map target) word line) := by
  intro s a t hs h
  cases hl : loop with
  | none =>
    rw [hl] at h
    cases h
  | some l =>
    rw [hl] at h
    have hw : s.Writes w [.jump (target l)] t := write_writes hs h
    refine ⟨hw.leads, action, by rw [hw.names], ?_⟩
    intro k resolve ends hk he
    rw [hw.position]
    exact hlaid k resolve ends l s.position hl (hl ▸ he) (hk.written hw.code)

theorem stateChange_lays (name : String) (line : Nat) :
    AlwaysLays w loop (Stmt.action? ctx (.changeState name line)) (stateChange ctx name line) := by
  intro s a t hs h
  unfold stateChange at h
  cases hk : ctx.kind with
  | function returns =>
    rw [hk] at h
    cases h
  | event =>
    simp only [hk] at h
    obtain ⟨_, _, hget, h⟩ := run_bind_ok h
    cases hget
    cases hi : s.names.stateIndex? name with
    | none =>
      rw [hi] at h
      cases h
    | some index =>
      rw [hi] at h
      have hw : s.Writes w [.changeState index] t := write_writes hs h
      refine ⟨hw.leads, .changeState index, ?_, ?_⟩
      · simp [Stmt.action?, hi, hw.names]
      · intro k resolve ends hk _
        rw [hw.position]
        exact .changeState ((hk.written hw.code).has rfl)

include hn hreg in
/-- A `return`, with a value or without one, is laid out for its action. -/
theorem returning_lays (result : Option Term) (line : Nat) :
    AlwaysLays w loop (Stmt.action? ctx (.ret result line)) (returning ctx result line) := by
  intro s a t hs h
  unfold returning at h
  cases hk : ctx.kind.returns with
  | none =>
    cases result with
    | some term =>
      simp only [hk] at h
      cases hkind : ctx.kind with
      | event =>
        simp only [hkind] at h
        cases h
      | function ty =>
        simp only [hkind] at h
        cases h
    | none =>
      simp only [hk] at h
      have hw : s.Writes w [.ret] t := write_writes hs h
      refine ⟨hw.leads, .ret none, by simp [Stmt.action?, hw.names], ?_⟩
      intro k resolve ends hk _
      rw [hw.position]
      exact .ret ((hk.written hw.code).has rfl)
  | some ty =>
    cases result with
    | none =>
      simp only [hk] at h
      cases h
    | some term =>
      simp only [hk] at h
      obtain ⟨⟨e, found⟩, u, hu, h⟩ := run_bind_ok h
      obtain ⟨he, ht, rfl⟩ := value_ok hu
      by_cases ha : ty.accepts found = true
      · simp only [ha, if_true] at h
        obtain ⟨_, u, hu, h⟩ := run_bind_ok h
        have hv : Computes w (e.convertedTo ty) s u := valueOf_computes hn hreg hs he ht ha hu
        obtain ⟨code, hw⟩ := hv.writes
        have hw₂ : u.Writes w [.retValue] t := write_writes hw.leads.ready h
        refine ⟨hw.leads.trans hw₂.leads, .ret (some (e.convertedTo ty)), ?_, ?_⟩
        · simp [Stmt.action?, hk, expr?_of_ok he, hw₂.names, hw.names]
        · intro k resolve ends hk _
          rw [hw₂.position]
          exact .retValue (hv.valueAt k resolve (hk.before hw₂.leads))
            ((hk.written hw₂.code).has rfl)
      · simp only [ha] at h
        cases h

include hn hreg in
theorem armCondition_tests {construct : Construct} (hs : s.Ready w)
    (h : armCondition ctx construct term line s = .ok otherwise t) :
    ∃ test, s.names.expr? ctx term = some test ∧ Tests w otherwise (some test) s t := by
  obtain ⟨_, s₁, h₁, h⟩ := run_bind_ok h
  obtain ⟨test, hread, hv⟩ := condition_computes hn hreg hs h₁
  obtain ⟨code, hw₁⟩ := hv.writes
  obtain ⟨label, s₂, h₂, h⟩ := run_bind_ok h
  have hw₂ : s₁.Writes w [] s₂ := newLabel_writes hw₁.leads.ready h₂
  obtain ⟨_, s₃, h₃, h⟩ := run_bind_ok h
  obtain ⟨rfl, rfl⟩ := run_pure_ok h
  have hw₃ : s₂.Writes w [.jumpIfFalse label] s₃ := write_writes hw₂.leads.ready h₃
  exact ⟨test, hread, hv.tests (hw₂.trans hw₃)⟩

/-- Between two arms stands a jump to the meeting point, and the failed condition of the first one comes
behind it. -/
theorem nextArm_writes {label : Label} (hs : s.Ready w)
    (h : nextArm meeting otherwise start line s = .ok label t) :
    s.Writes w [.jump label] t ∧ t.Binds otherwise t.position ∧ ∀ l, meeting = some l → l = label := by
  obtain ⟨_, s₁, h₁, h⟩ := run_bind_ok h
  have hw₁ : s.Writes w [] s₁ := atLine_writes hs h₁
  obtain ⟨found, s₂, h₂, h⟩ := run_bind_ok h
  have hw₂ : s₁.Writes w [] s₂ ∧ ∀ l, meeting = some l → l = found := by
    cases meeting with
    | none => exact ⟨newLabel_writes hw₁.leads.ready h₂, nofun⟩
    | some known =>
      obtain ⟨rfl, rfl⟩ := run_pure_ok h₂
      exact ⟨⟨.refl hw₁.leads.ready, (List.append_nil _).symm, rfl⟩, fun l hl => (Option.some.inj hl).symm⟩
  obtain ⟨_, s₃, h₃, h⟩ := run_bind_ok h
  have hw₃ : s₂.Writes w [.jump found] s₃ := write_writes hw₂.1.leads.ready h₃
  obtain ⟨_, s₄, h₄, h⟩ := run_bind_ok h
  obtain ⟨hw₄, hb⟩ := mark_writes hw₃.leads.ready h₄
  obtain ⟨rfl, rfl⟩ := run_pure_ok h
  have hall : s.Writes w [.jump found] s₄ := hw₁.trans (hw₂.1.trans (hw₃.trans hw₄))
  have hp : s₄.position = s₃.position := hw₄.position
  exact ⟨hall, hp ▸ hb, hw₂.2⟩

/-- Work after an arm of a conditional whose failed condition jumps to `otherwise`. -/
def AlwaysLaysAfter (w : World) (loop : Option LoopLabels) (meeting : Option Label) (otherwise : Label)
    (read : Names → Option (Action × Names)) (work : BodyM Assembly Unit) : Prop :=
  ∀ s a t, s.Ready w → work s = .ok a t → s.Leads w t ∧ ∃ no, read s.names = some (no, t.names) ∧
    ∀ (k : Chunk) (resolve : Label → Except Label Nat) (ends : LoopEnds), k.Completes resolve t →
      EndsOf resolve loop ends → (∀ l, meeting = some l → resolve l = .ok t.position) ∧
        ∃ r, resolve otherwise = .ok r ∧ no.LaidAfter w k ends s.position r t.position

include hn hreg in
theorem elseIf_lays (hb : AlwaysLays w loop (Stmt.actions? ctx body) (statements ctx loop body))
    (ht : ∀ label next, AlwaysLaysAfter w loop (some label) next (Tail.action? ctx tail)
      (conditionalTail ctx loop (some label) next line tail)) :
    AlwaysLaysAfter w loop meeting otherwise (Tail.action? ctx (.elseIf term body tail line))
      (conditionalTail ctx loop meeting otherwise start (.elseIf term body tail line)) := by
  intro s a t hs h
  obtain ⟨label, s₁, h₁, h⟩ := run_bind_ok h
  obtain ⟨hw₁, hbind, hmeet⟩ := nextArm_writes hs h₁
  obtain ⟨next, s₂, h₂, h⟩ := run_bind_ok h
  obtain ⟨test, htest, hcond⟩ := armCondition_tests hn hreg hw₁.leads.ready h₂
  obtain ⟨code, hw₂⟩ := hcond.writes
  obtain ⟨_, s₃, h₃, h⟩ := run_bind_ok h
  obtain ⟨hl₃, yes, hyes, hlaid⟩ := inScope_lays hb s₂ _ s₃ hw₂.leads.ready h₃
  obtain ⟨hl₄, no, hno, hafter⟩ := ht label next s₃ a t hl₃.ready h
  rw [hw₁.names] at htest
  rw [hw₂.names, hw₁.names] at hyes
  refine ⟨hw₁.leads.trans (hw₂.leads.trans (hl₃.trans hl₄)), .cond test yes no, ?_, ?_⟩
  · simp [Tail.action?, htest, hyes, hno]
  · intro k resolve ends hk he
    have hk₃ : k.Completes resolve s₃ := hk.before hl₄
    have hk₂ : k.Completes resolve s₂ := hk₃.before hl₃
    have hk₁ : k.Completes resolve s₁ := hk₂.before hw₂.leads
    obtain ⟨hmeeting, r, hr, hn⟩ := hafter k resolve ends hk he
    have hlabel : resolve label = .ok t.position := hmeeting label rfl
    have hp : s₁.position = s.position + 1 := hw₁.position
    refine ⟨fun l hl => (hmeet l hl).symm ▸ hlabel, s.position + 1, hp ▸ hk₁.binds _ _ hbind, ?_⟩
    refine .another ((hk₁.written hw₁.code).has (Instr.retarget_jump hlabel)) ?_
    rw [← hp]
    exact .cond (hcond.testAt k resolve r hk₂ hr) (hlaid k resolve ends hk₃ he) hn

theorem elseArm_lays (hb : AlwaysLays w loop (Stmt.actions? ctx body) (statements ctx loop body)) :
    AlwaysLaysAfter w loop meeting otherwise (Tail.action? ctx (.elseArm body line after))
      (conditionalTail ctx loop meeting otherwise start (.elseArm body line after)) := by
  intro s a t hs h
  obtain ⟨label, s₁, h₁, h⟩ := run_bind_ok h
  obtain ⟨hw₁, hbind, hmeet⟩ := nextArm_writes hs h₁
  obtain ⟨_, s₂, h₂, h⟩ := run_bind_ok h
  obtain ⟨hl₂, no, hno, hlaid⟩ := inScope_lays hb s₁ _ s₂ hw₁.leads.ready h₂
  obtain ⟨_, s₃, h₃, h⟩ := run_bind_ok h
  have hw₃ : s₂.Writes w [] s₃ := atLine_writes hl₂.ready h₃
  obtain ⟨hw₄, hend⟩ := mark_writes hw₃.leads.ready h
  have hw : s₂.Writes w [] t := hw₃.trans hw₄
  rw [hw₁.names] at hno
  refine ⟨hw₁.leads.trans (hl₂.trans hw.leads), no, ?_, ?_⟩
  · rw [hw.names]
    exact hno
  · intro k resolve ends hk he
    have hk₂ : k.Completes resolve s₂ := hk.before hw.leads
    have hk₁ : k.Completes resolve s₁ := hk₂.before hl₂
    have hq : t.position = s₃.position := hw₄.position
    have hlabel : resolve label = .ok t.position := hq ▸ hk.binds _ _ hend
    have hp : s₁.position = s.position + 1 := hw₁.position
    refine ⟨fun l hl => (hmeet l hl).symm ▸ hlabel, s.position + 1, hp ▸ hk₁.binds _ _ hbind, ?_⟩
    refine .another ((hk₁.written hw₁.code).has (Instr.retarget_jump hlabel)) ?_
    have hlast : t.position = s₂.position := hw.position
    rw [← hp, hlast]
    exact hlaid k resolve ends hk₂ he

theorem done_lays :
    AlwaysLaysAfter w loop meeting otherwise (Tail.action? ctx (.done after))
      (conditionalTail ctx loop meeting otherwise start (.done after)) := by
  intro s a t hs h
  obtain ⟨_, s₁, h₁, h⟩ := run_bind_ok h
  have hw₁ : s.Writes w [] s₁ := atLine_writes hs h₁
  obtain ⟨_, s₂, h₂, h⟩ := run_bind_ok h
  obtain ⟨hw₂, hbind⟩ := mark_writes hw₁.leads.ready h₂
  have hlast : s₂.Writes w [] t ∧ ∀ l, meeting = some l → t.Binds l s₂.position := by
    cases meeting with
    | none =>
      obtain ⟨-, rfl⟩ := run_pure_ok h
      exact ⟨⟨.refl hw₂.leads.ready, (List.append_nil _).symm, rfl⟩, nofun⟩
    | some label =>
      obtain ⟨hw₃, hb⟩ := mark_writes hw₂.leads.ready h
      exact ⟨hw₃, fun l hl => Option.some.inj hl ▸ hb⟩
  have hw : s.Writes w [] t := hw₁.trans (hw₂.trans hlast.1)
  refine ⟨hw.leads, .skip, by rw [hw.names]; rfl, ?_⟩
  intro k resolve ends hk _
  have hp : t.position = s.position := hw.position
  have hp₁ : s₁.position = s.position := hw₁.position
  have hp₂ : s₂.position = s.position := hw₂.position.trans hp₁
  have hother : resolve otherwise = .ok s.position := hp₁ ▸ (hk.before hlast.1.leads).binds _ _ hbind
  rw [hp]
  exact ⟨fun l hl => hp₂ ▸ hk.binds _ _ (hlast.2 l hl), s.position, hother, .nothing⟩

include hn hreg in
theorem branch_lays (hb : AlwaysLays w loop (Stmt.actions? ctx body) (statements ctx loop body))
    (ht : ∀ next, AlwaysLaysAfter w loop none next (Tail.action? ctx tail)
      (conditionalTail ctx loop none next line tail)) :
    AlwaysLays w loop (Stmt.action? ctx (.branch term body tail line))
      (statement ctx loop (.branch term body tail line)) := by
  refine afterLine_lays line ?_
  intro s a t hs h
  obtain ⟨next, s₁, h₁, h⟩ := run_bind_ok h
  obtain ⟨test, htest, hcond⟩ := armCondition_tests hn hreg hs h₁
  obtain ⟨code, hw₁⟩ := hcond.writes
  obtain ⟨_, s₂, h₂, h⟩ := run_bind_ok h
  obtain ⟨hl₂, yes, hyes, hlaid⟩ := inScope_lays hb s₁ _ s₂ hw₁.leads.ready h₂
  obtain ⟨hl₃, no, hno, hafter⟩ := ht next s₂ a t hl₂.ready h
  rw [hw₁.names] at hyes
  refine ⟨hw₁.leads.trans (hl₂.trans hl₃), .cond test yes no, ?_, ?_⟩
  · simp [Stmt.action?, htest, hyes, hno]
  · intro k resolve ends hk he
    have hk₂ : k.Completes resolve s₂ := hk.before hl₃
    obtain ⟨-, r, hr, hn⟩ := hafter k resolve ends hk he
    exact .cond (hcond.testAt k resolve r (hk₂.before hl₂) hr) (hlaid k resolve ends hk₂ he) hn

include hn hreg in
theorem whileLoop_lays
    (hb : ∀ labels, AlwaysLays w (some labels) (Stmt.actions? ctx body) (statements ctx (some labels) body)) :
    AlwaysLays w loop (Stmt.action? ctx (.whileLoop term body line after))
      (statement ctx loop (.whileLoop term body line after)) := by
  refine afterLine_lays line ?_
  intro s a t hs h
  obtain ⟨again, s₁, h₁, h⟩ := run_bind_ok h
  have hw₁ : s.Writes w [] s₁ := newLabel_writes hs h₁
  obtain ⟨stop, s₂, h₂, h⟩ := run_bind_ok h
  have hw₂ : s₁.Writes w [] s₂ := newLabel_writes hw₁.leads.ready h₂
  obtain ⟨_, s₃, h₃, h⟩ := run_bind_ok h
  obtain ⟨hw₃, hagain⟩ := mark_writes hw₂.leads.ready h₃
  have hhead : s.Writes w [] s₃ := hw₁.trans (hw₂.trans hw₃)
  obtain ⟨_, s₄, h₄, h⟩ := run_bind_ok h
  obtain ⟨test, htest, hcond⟩ := condition_computes hn hreg hhead.leads.ready h₄
  obtain ⟨code, hw₄⟩ := hcond.writes
  obtain ⟨_, s₅, h₅, h⟩ := run_bind_ok h
  have hw₅ : s₄.Writes w [.jumpIfFalse stop] s₅ := write_writes hw₄.leads.ready h₅
  obtain ⟨_, s₆, h₆, h⟩ := run_bind_ok h
  obtain ⟨hl₆, inner, hinner, hlaid⟩ := inScope_lays (hb ⟨again, stop⟩) s₅ _ s₆ hw₅.leads.ready h₆
  obtain ⟨_, s₇, h₇, h⟩ := run_bind_ok h
  have hw₇ : s₆.Writes w [] s₇ := atLine_writes hl₆.ready h₇
  obtain ⟨_, s₈, h₈, h⟩ := run_bind_ok h
  have hw₈ : s₇.Writes w [.jump again] s₈ := write_writes hw₇.leads.ready h₈
  obtain ⟨hw₉, hstop⟩ := mark_writes hw₈.leads.ready h
  have hback : s₆.Writes w [.jump again] s₈ := hw₇.trans hw₈
  have hhold : s.Leads w s₅ := hhead.leads.trans (hw₄.leads.trans hw₅.leads)
  rw [hhead.names] at htest
  rw [hw₅.names, hw₄.names, hhead.names] at hinner
  refine ⟨hhold.trans (hl₆.trans (hback.leads.trans hw₉.leads)), .whileLoop test inner, ?_, ?_⟩
  · simp [Stmt.action?, htest, hinner, hw₉.names, hback.names]
  · intro k resolve ends hk he
    have hk₈ : k.Completes resolve s₈ := hk.before hw₉.leads
    have hk₆ : k.Completes resolve s₆ := hk₈.before hback.leads
    have hk₅ : k.Completes resolve s₅ := hk₆.before hl₆
    have hk₄ : k.Completes resolve s₄ := hk₅.before hw₅.leads
    have hp₂ : s₂.position = s.position := (hw₁.trans hw₂).position
    have hp₃ : s₃.position = s.position := hhead.position
    have hp₈ : s₈.position = s₆.position + 1 := hback.position
    have hp : t.position = s₆.position + 1 := hw₉.position.trans hp₈
    have hra : resolve again = .ok s.position := hp₂ ▸ (hk₄.before hw₄.leads).binds _ _ hagain
    have hrs : resolve stop = .ok (s₆.position + 1) := hp₈ ▸ hk.binds _ _ hstop
    have hvalue : k.ValueAt w test s.position s₄.position := hp₃ ▸ hcond.valueAt k resolve hk₄
    have hbody : inner.Laid w k ⟨s.position, s₆.position + 1⟩ (s₄.position + 1) s₆.position := by
      have hp₅ : s₅.position = s₄.position + 1 := hw₅.position
      rw [← hp₅]
      refine hlaid k resolve _ hk₆ ?_
      rintro l ⟨⟩
      exact ⟨hra, hrs⟩
    rw [hp]
    exact .whileLoop hvalue ((hk₅.written hw₅.code).has (Instr.retarget_jumpIfFalse hrs)) hbody
      ((hk₈.written hback.code).has (Instr.retarget_jump hra))

/-- A loop that jumps back to another place than `continue` does has a label for each. -/
theorem loopLabels_writes {construct : String} {line : Nat}
  {rest : Label → Label → Label → BodyM Assembly Unit}
    (hs : s.Ready w)
    (h : (do
      let top ← newLabel .loopTop construct line
      let again ← newLabel .loopContinue construct line
      let stop ← newLabel .loopEnd construct line
      mark top line
      rest top again stop : BodyM Assembly Unit) s = .ok a t) :
    ∃ top again stop u, s.Writes w [] u ∧ u.Binds top s.position ∧ rest top again stop u = .ok a t := by
  obtain ⟨top, s₁, h₁, h⟩ := run_bind_ok h
  have hw₁ : s.Writes w [] s₁ := newLabel_writes hs h₁
  obtain ⟨again, s₂, h₂, h⟩ := run_bind_ok h
  have hw₂ : s₁.Writes w [] s₂ := newLabel_writes hw₁.leads.ready h₂
  obtain ⟨stop, s₃, h₃, h⟩ := run_bind_ok h
  have hw₃ : s₂.Writes w [] s₃ := newLabel_writes hw₂.leads.ready h₃
  obtain ⟨_, s₄, h₄, h⟩ := run_bind_ok h
  obtain ⟨hw₄, htop⟩ := mark_writes hw₃.leads.ready h₄
  have hlabels : s.Writes w [] s₃ := hw₁.trans (hw₂.trans hw₃)
  have hp : s₃.position = s.position := hlabels.position
  exact ⟨top, again, stop, s₄, hlabels.trans hw₄, hp ▸ htop, h⟩

include hn hreg in
theorem doLoop_lays {last : Nat}
    (hb : ∀ labels, AlwaysLays w (some labels) (Stmt.actions? ctx body) (statements ctx (some labels) body)) :
    AlwaysLays w loop (Stmt.action? ctx (.doLoop body term line last))
      (statement ctx loop (.doLoop body term line last)) := by
  refine afterLine_lays line ?_
  intro s a t hs h
  obtain ⟨top, again, stop, s₄, hhead, htop, h⟩ := loopLabels_writes hs h
  obtain ⟨_, s₅, h₅, h⟩ := run_bind_ok h
  obtain ⟨hl₅, inner, hinner, hlaid⟩ := inScope_lays (hb ⟨again, stop⟩) s₄ _ s₅ hhead.leads.ready h₅
  obtain ⟨_, s₆, h₆, h⟩ := run_bind_ok h
  have hw₆ : s₅.Writes w [] s₆ := atLine_writes hl₅.ready h₆
  obtain ⟨_, s₇, h₇, h⟩ := run_bind_ok h
  obtain ⟨hw₇, hagain⟩ := mark_writes hw₆.leads.ready h₇
  have hmid : s₅.Writes w [] s₇ := hw₆.trans hw₇
  obtain ⟨_, s₈, h₈, h⟩ := run_bind_ok h
  obtain ⟨test, htest, hcond⟩ := condition_computes hn hreg hmid.leads.ready h₈
  obtain ⟨code, hw₈⟩ := hcond.writes
  obtain ⟨_, s₉, h₉, h⟩ := run_bind_ok h
  have hw₉ : s₈.Writes w [.jumpIfFalse stop, .jump top] s₉ := write_writes hw₈.leads.ready h₉
  obtain ⟨hw₁₀, hstop⟩ := mark_writes hw₉.leads.ready h
  have hrest : s₅.Leads w s₈ := hmid.leads.trans hw₈.leads
  rw [hhead.names] at hinner
  rw [hmid.names] at htest
  refine ⟨hhead.leads.trans (hl₅.trans (hrest.trans (hw₉.leads.trans hw₁₀.leads))),
    .doLoop inner test, ?_, ?_⟩
  · simp [Stmt.action?, htest, hinner, hw₁₀.names, hw₉.names, hw₈.names, hmid.names]
  · intro k resolve ends hk he
    have hk₉ : k.Completes resolve s₉ := hk.before hw₁₀.leads
    have hk₈ : k.Completes resolve s₈ := hk₉.before hw₉.leads
    have hk₇ : k.Completes resolve s₇ := hk₈.before hw₈.leads
    have hk₅ : k.Completes resolve s₅ := hk₈.before hrest
    have hp₄ : s₄.position = s.position := hhead.position
    have hp₆ : s₆.position = s₅.position := hw₆.position
    have hp₇ : s₇.position = s₅.position := hmid.position
    have hp₉ : s₉.position = s₈.position + 2 := hw₉.position
    have hp : t.position = s₈.position + 2 := hw₁₀.position.trans hp₉
    have hrt : resolve top = .ok s.position := (hk₅.before hl₅).binds _ _ htop
    have hra : resolve again = .ok s₅.position := hp₆ ▸ hk₇.binds _ _ hagain
    have hrs : resolve stop = .ok (s₈.position + 2) := hp₉ ▸ hk.binds _ _ hstop
    have hbody : inner.Laid w k ⟨s₅.position, s₈.position + 2⟩ s.position s₅.position := by
      rw [← hp₄]
      refine hlaid k resolve _ hk₅ ?_
      rintro l ⟨⟩
      exact ⟨hra, hrs⟩
    have hvalue : k.ValueAt w test s₅.position s₈.position := hp₇ ▸ hcond.valueAt k resolve hk₈
    have hjumps : k.Holds resolve s₈.position ([.jumpIfFalse stop] ++ [.jump top]) := hk₉.written hw₉.code
    rw [hp]
    exact .doLoop hbody hvalue (hjumps.left.has (Instr.retarget_jumpIfFalse hrs))
      (hjumps.right.has (Instr.retarget_jump hrt))

include hn hreg in
theorem forLoop_lays {init step : List Term} {condition : Option Term}
    (hb : ∀ labels, AlwaysLays w (some labels) (Stmt.actions? ctx body) (statements ctx (some labels) body)) :
    AlwaysLays w loop (Stmt.action? ctx (.forLoop init condition step body line after))
      (statement ctx loop (.forLoop init condition step body line after)) := by
  refine afterLine_lays line ?_
  intro s a t hs h
  obtain ⟨_, s₀, h₀, h⟩ := run_bind_ok h
  obtain ⟨before, hbefore, hinit⟩ := effects_performs hn hreg hs h₀
  obtain ⟨code₀, hw₀⟩ := hinit.writes
  obtain ⟨top, again, stop, s₄, hhead, htop, h⟩ := loopLabels_writes hw₀.leads.ready h
  obtain ⟨test, s₅, htest, hcond, h⟩ : ∃ test s₅,
      s₄.names.test? ctx condition = some test ∧ Tests w stop test s₄ s₅ ∧ (do
        inScope (statements ctx (some ⟨again, stop⟩) body)
        atLine after
        mark again after
        effects ctx step
        write [.jump top]
        mark stop after : BodyM Assembly Unit) s₅ = .ok a t := by
    cases condition with
    | none => exact ⟨none, s₄, rfl, .none hhead.leads.ready stop, h⟩
    | some term =>
      obtain ⟨_, u, hu, h⟩ := run_bind_ok h
      obtain ⟨e, he, hv⟩ := condition_computes hn hreg hhead.leads.ready hu
      obtain ⟨code, hwu⟩ := hv.writes
      obtain ⟨_, s₅, h₅, h⟩ := run_bind_ok h
      have hw₅ : u.Writes w [.jumpIfFalse stop] s₅ := write_writes hwu.leads.ready h₅
      exact ⟨some e, s₅, by rw [Names.test?, he]; rfl, hv.tests hw₅, h⟩
  obtain ⟨code₅, hw₅⟩ := hcond.writes
  obtain ⟨_, s₆, h₆, h⟩ := run_bind_ok h
  obtain ⟨hl₆, inner, hinner, hlaid⟩ := inScope_lays (hb ⟨again, stop⟩) s₅ _ s₆ hw₅.leads.ready h₆
  obtain ⟨_, s₇, h₇, h⟩ := run_bind_ok h
  have hw₇ : s₆.Writes w [] s₇ := atLine_writes hl₆.ready h₇
  obtain ⟨_, s₈, h₈, h⟩ := run_bind_ok h
  obtain ⟨hw₈, hagain⟩ := mark_writes hw₇.leads.ready h₈
  have hmid : s₆.Writes w [] s₈ := hw₇.trans hw₈
  obtain ⟨_, s₉, h₉, h⟩ := run_bind_ok h
  obtain ⟨steps, hsteps, hstep⟩ := effects_performs hn hreg hmid.leads.ready h₉
  obtain ⟨code₉, hw₉⟩ := hstep.writes
  obtain ⟨_, s₁₀, h₁₀, h⟩ := run_bind_ok h
  have hw₁₀ : s₉.Writes w [.jump top] s₁₀ := write_writes hw₉.leads.ready h₁₀
  obtain ⟨hw₁₁, hstop⟩ := mark_writes hw₁₀.leads.ready h
  have hfirst : s.Leads w s₅ := hw₀.leads.trans (hhead.leads.trans hw₅.leads)
  have hrest : s₆.Leads w s₉ := hmid.leads.trans hw₉.leads
  rw [hhead.names, hw₀.names] at htest
  rw [hw₅.names, hhead.names, hw₀.names] at hinner
  rw [hmid.names] at hsteps
  refine ⟨hfirst.trans (hl₆.trans (hrest.trans (hw₁₀.leads.trans hw₁₁.leads))),
    .forLoop before test steps inner, ?_, ?_⟩
  · simp [Stmt.action?, hbefore, htest, hinner, hsteps, hw₁₁.names, hw₁₀.names, hw₉.names, hmid.names]
  · intro k resolve ends hk he
    have hk₁₀ : k.Completes resolve s₁₀ := hk.before hw₁₁.leads
    have hk₉ : k.Completes resolve s₉ := hk₁₀.before hw₁₀.leads
    have hk₈ : k.Completes resolve s₈ := hk₉.before hw₉.leads
    have hk₆ : k.Completes resolve s₆ := hk₉.before hrest
    have hk₅ : k.Completes resolve s₅ := hk₆.before hl₆
    have hk₄ : k.Completes resolve s₄ := hk₅.before hw₅.leads
    have hp₄ : s₄.position = s₀.position := hhead.position
    have hp₇ : s₇.position = s₆.position := hw₇.position
    have hp₈ : s₈.position = s₆.position := hmid.position
    have hp₁₀ : s₁₀.position = s₉.position + 1 := hw₁₀.position
    have hp : t.position = s₉.position + 1 := hw₁₁.position.trans hp₁₀
    have hrt : resolve top = .ok s₀.position := hk₄.binds _ _ htop
    have hra : resolve again = .ok s₆.position := hp₇ ▸ hk₈.binds _ _ hagain
    have hrs : resolve stop = .ok (s₉.position + 1) := hp₁₀ ▸ hk.binds _ _ hstop
    have hbody : inner.Laid w k ⟨s₆.position, s₉.position + 1⟩ s₅.position s₆.position := by
      refine hlaid k resolve _ hk₆ ?_
      rintro l ⟨⟩
      exact ⟨hra, hrs⟩
    rw [hp]
    exact .forLoop (hinit.effectAt k resolve (hk₄.before hhead.leads))
      (hp₄ ▸ hcond.testAt k resolve _ hk₅ hrs)
      hbody (hp₈ ▸ hstep.effectAt k resolve hk₉) ((hk₁₀.written hw₁₀.code).has (Instr.retarget_jump hrt))

end Statements

mutual

/-- The code of a statement is laid out for its action. -/
theorem statement_lays (hn : Numbered ctx.registry.functions) (hreg : w.registry = ctx.registry)
    (loop : Option LoopLabels) (stmt : Stmt) (hj : stmt.jumpFree = true) :
    AlwaysLays w loop (Stmt.action? ctx stmt) (statement ctx loop stmt) := by
  cases stmt with
  | empty =>
    intro s a t hs h
    obtain ⟨-, rfl⟩ := run_pure_ok h
    exact ⟨.refl hs, .skip, rfl, fun _ _ _ _ _ => .skip⟩
  | block body => exact inScope_lays (statements_lays hn hreg loop body hj)
  | declare ty name init line => exact afterLine_lays line (declaration_lays hn hreg ty name init line)
  | expr term line =>
    have hl : term.isLabel = false := by simpa [Stmt.jumpFree] using hj
    exact afterLine_lays line (expression_lays hn hreg hl line)
  | ret result line => exact afterLine_lays line (returning_lays hn hreg result line)
  | changeState name line => exact afterLine_lays line (stateChange_lays name line)
  | jump name line => cases hj
  | breakLoop line =>
    refine afterLine_lays line (loopJump_lays line ?_)
    intro k resolve ends l p hl he hk
    exact .breakLoop (hk.has (Instr.retarget_jump (he l hl).2))
  | continueLoop line =>
    refine afterLine_lays line (loopJump_lays line ?_)
    intro k resolve ends l p hl he hk
    exact .continueLoop (hk.has (Instr.retarget_jump (he l hl).1))
  | branch term body tail line =>
    obtain ⟨hbody, htail⟩ := Bool.and_eq_true_iff.mp hj
    exact branch_lays hn hreg (statements_lays hn hreg loop body hbody)
      fun next => conditionalTail_lays hn hreg loop none next line tail htail
  | whileLoop term body line after =>
    exact whileLoop_lays hn hreg fun labels => statements_lays hn hreg (some labels) body hj
  | forLoop init condition step body line after =>
    exact forLoop_lays hn hreg fun labels => statements_lays hn hreg (some labels) body hj
  | doLoop body term line last =>
    exact doLoop_lays hn hreg fun labels => statements_lays hn hreg (some labels) body hj
  | broken problem =>
    intro s a t hs h
    cases h

theorem statements_lays (hn : Numbered ctx.registry.functions) (hreg : w.registry = ctx.registry)
    (loop : Option LoopLabels) (body : List Stmt) (hj : Stmt.allJumpFree body = true) :
    AlwaysLays w loop (Stmt.actions? ctx body) (statements ctx loop body) := by
  cases body with
  | nil =>
    intro s a t hs h
    obtain ⟨-, rfl⟩ := run_pure_ok h
    exact ⟨.refl hs, .skip, rfl, fun _ _ _ _ _ => .skip⟩
  | cons stmt rest =>
    obtain ⟨hstmt, hrest⟩ := Bool.and_eq_true_iff.mp hj
    intro s a t hs h
    obtain ⟨_, u, hu, h⟩ := run_bind_ok h
    obtain ⟨hl, first, hfirst, hlaid⟩ := statement_lays hn hreg loop stmt hstmt s _ u hs hu
    obtain ⟨hl', others, hothers, hlaid'⟩ := statements_lays hn hreg loop rest hrest u a t hl.ready h
    refine ⟨hl.trans hl', .seq first others, by simp [Stmt.actions?, hfirst, hothers], ?_⟩
    intro k resolve ends hk he
    exact .seq (hlaid k resolve ends (hk.before hl') he) (hlaid' k resolve ends hk he)

theorem conditionalTail_lays (hn : Numbered ctx.registry.functions) (hreg : w.registry = ctx.registry)
    (loop : Option LoopLabels) (meeting : Option Label) (otherwise : Label) (start : Nat) (tail : Tail)
    (hj : tail.jumpFree = true) :
    AlwaysLaysAfter w loop meeting otherwise (Tail.action? ctx tail)
      (conditionalTail ctx loop meeting otherwise start tail) := by
  cases tail with
  | done after => exact done_lays
  | elseIf term body rest line =>
    obtain ⟨hbody, hrest⟩ := Bool.and_eq_true_iff.mp hj
    exact elseIf_lays hn hreg (statements_lays hn hreg loop body hbody)
      fun label next => conditionalTail_lays hn hreg loop (some label) next line rest hrest
  | elseArm body line after => exact elseArm_lays (statements_lays hn hreg loop body hj)

end

end Body

end WorldScript
