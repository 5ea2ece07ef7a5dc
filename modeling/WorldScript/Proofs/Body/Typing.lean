import WorldScript.Proofs.Body.Congruence
import WorldScript.Proofs.Code.Assembly

/-! # Bodies become well-typed code

Between two statements the stack is empty.  What a statement writes fits the layout of the names that are
known where it stands, and later declarations only add slots.
-/

namespace WorldScript

section Ensures

variable {ε σ α β : Type}

/-- Where work that starts in a state with `P` has a result, the result and the new state have `Q`. -/
def Ensures (P : σ → Prop) (x : EStateM ε σ α) (Q : α → σ → Prop) : Prop :=
  ∀ s a t, P s → x s = .ok a t → Q a t

namespace Ensures

variable {P : σ → Prop} {Q : α → σ → Prop} {R : β → σ → Prop}

theorem pure {a : α} (h : ∀ s, P s → Q a s) : Ensures P (pure a : EStateM ε σ α) Q := by
  intro s b t hs hr
  obtain ⟨rfl, rfl⟩ := run_pure_ok hr
  exact h s hs

theorem bind {x : EStateM ε σ α} {f : α → EStateM ε σ β} (hx : Ensures P x Q)
    (hf : ∀ a, Ensures (Q a) (f a) R) : Ensures P (x >>= f) R := by
  intro s b t hs hr
  obtain ⟨a, u, hxu, hfu⟩ := run_bind_ok hr
  exact hf a u b t (hx s a u hs hxu) hfu

theorem throw {e : ε} : Ensures P (throw e : EStateM ε σ α) Q := by
  intro s a t _ hr
  cases hr

theorem modify {f : σ → σ} {Q : Unit → σ → Prop} (h : ∀ s, P s → Q () (f s)) :
    Ensures P (modify f : EStateM ε σ Unit) Q := by
  intro s a t hs hr
  cases hr
  exact h s hs

end Ensures

end Ensures

namespace Names

variable {n m : Names}

/-- Names with the same variables, functions and states of the script as others, and with their locals and
more. -/
structure Extends (m n : Names) : Prop where
  globals : m.globals = n.globals
  functions : m.functions = n.functions
  states : m.states = n.states
  locals : n.locals <+: m.locals

theorem Extends.refl (n : Names) : n.Extends n := ⟨rfl, rfl, rfl, List.prefix_rfl⟩

theorem Extends.trans {k : Names} (h : n.Extends m) (h' : m.Extends k) : n.Extends k :=
  ⟨h.globals.trans h'.globals, h.functions.trans h'.functions, h.states.trans h'.states,
    h'.locals.trans h.locals⟩

theorem Extends.layout (h : m.Extends n) (hosts : Array HostFunction) :
    (m.layout hosts).Extends (n.layout hosts) :=
  ⟨h.locals.map _, by simp [Names.layout, h.globals], h.functions, rfl, by simp [Names.layout, h.states]⟩

theorem openScope_extends (n : Names) : n.openScope.Extends n := ⟨rfl, rfl, rfl, List.prefix_rfl⟩

theorem closeScope_extends (n : Names) : n.closeScope.Extends n := ⟨rfl, rfl, rfl, List.prefix_rfl⟩

/-- A new local comes after those that are there. -/
theorem declareLocal_ok {name : String} {ty : Ty} {line slot : Nat}
    (h : n.declareLocal name ty line = .ok (slot, m)) :
    m.Extends n ∧ slot = n.locals.length ∧ m.locals = n.locals ++ [⟨name, ty⟩] := by
  unfold declareLocal at h
  split at h
  · simp at h
  · split at h
    · simp at h
    · cases h
      exact ⟨⟨rfl, rfl, rfl, List.prefix_append _ _⟩, rfl, rfl⟩

end Names

/-- The names are those of `script` and later locals, and the code so far leaves values of the types `S`. -/
def BodyState.Leaves (ctx : BodyContext) (script : Names) (S : List Ty) (s : BodyState Assembly) : Prop :=
  s.names.Extends script ∧ s.backend.Leaves (s.names.layout ctx.registry.functions) ctx.kind S

namespace Body

open BodyM

variable {ctx : BodyContext} {script : Names} {S T : List Ty} {s t : BodyState Assembly} {e : Expr}
  {line stop : Nat} {a : Unit} {params : List Param} {code : List (Instr Label)} {term : Term} {names : Names}
  {locals : List Param} {start : Nat} {tokens : List Token}

abbrev Takes (ctx : BodyContext) (script : Names) (S T : List Ty) {α : Type} (x : BodyM Assembly α) : Prop :=
  Ensures (BodyState.Leaves ctx script S) x fun _ => BodyState.Leaves ctx script T

theorem atLine_takes (line : Nat) : Takes ctx script S S (atLine line) :=
  .modify fun _ hs => ⟨hs.1, hs.2.atLine line⟩

theorem changeNames_takes {f : Names → Names} (hf : ∀ n, (f n).Extends n) :
    Takes ctx script S S (changeNames f) :=
  .modify fun _ hs => ⟨(hf _).trans hs.1, hs.2.mono ((hf _).layout _)⟩

theorem newLabel_takes (purpose : LabelPurpose) (construct : String) (line : Nat) :
    Takes ctx script S S (newLabel purpose construct line) := by
  intro s a t hs hr
  cases hr
  exact ⟨hs.1, hs.2.newLabel⟩

theorem lift_ok {α : Type} {r : Except Diagnostic α} {a : α} (h : (lift r : BodyM Assembly α) s = .ok a t) :
    r = .ok a ∧ s = t := by
  cases r with
  | error d => cases h
  | ok b =>
    cases h
    exact ⟨rfl, rfl⟩

theorem mark_takes (label : Label) (line : Nat) : Takes ctx script [] [] (mark label line) := by
  intro s a t hs hr
  obtain ⟨s₁, t₁, h₁, hr⟩ := run_bind_ok hr
  cases h₁
  obtain ⟨book, t₂, h₂, hr⟩ := run_bind_ok hr
  obtain ⟨-, rfl⟩ := lift_ok h₂
  cases hr
  exact ⟨hs.1, hs.2.place label⟩

theorem write_takes
    (hc : ∀ n : Names, n.Extends script → CodeFits (n.layout ctx.registry.functions) ctx.kind code S T) :
    Takes ctx script S T (write code) :=
  .modify fun _ hs => ⟨hs.1, hs.2.writeAll (hc _ hs.1)⟩

theorem jump_takes (label : Label) : Takes ctx script [] [] (write [.jump label]) :=
  write_takes fun _ _ => .single (.jump label)

theorem elaborate_ok (h : elaborate ctx term s = .ok e t) :
    Env.elaborate ⟨ctx.registry, ctx.visibility, s.names⟩ term = .ok e ∧ s = t := by
  obtain ⟨env, u, henv, h⟩ := run_bind_ok h
  cases henv
  exact lift_ok h

theorem value_ok {r : Expr × Ty} (h : value ctx term line s = .ok r t) :
    Env.elaborate ⟨ctx.registry, ctx.visibility, s.names⟩ term = .ok r.1 ∧ r.1.ty = some r.2 ∧ s = t := by
  obtain ⟨e, u, hu, h⟩ := run_bind_ok h
  obtain ⟨he, rfl⟩ := elaborate_ok hu
  cases hty : e.ty with
  | none =>
    simp only [hty] at h
    cases h
  | some ty =>
    simp only [hty] at h
    obtain ⟨rfl, rfl⟩ := run_pure_ok h
    exact ⟨he, hty, rfl⟩

/-- The names stay, and `e` is well typed with a value of the type `ty`. -/
def Valued (ctx : BodyContext) (script : Names) (S : List Ty) (e : Expr) (ty : Ty) (s : BodyState Assembly) :
    Prop :=
  s.Leaves ctx script S ∧ e.WellTyped (s.names.layout ctx.registry.functions) ∧ e.ty = some ty

theorem value_ensures (hn : Numbered ctx.registry.functions) (term : Term) (line : Nat) :
    Ensures (BodyState.Leaves ctx script S) (value ctx term line) fun r => Valued ctx script S r.1 r.2 := by
  intro s r t hs hr
  obtain ⟨he, hty, rfl⟩ := value_ok hr
  have hw := Env.elaborate_wellTyped hn he
  exact ⟨hs, hw, hty⟩

/-- Code that was found for an expression is written where the expression was elaborated. -/
theorem liftWrite_leaves {s t : BodyState Assembly} {a : Unit} {r : Except Diagnostic (List (Instr Label))}
    {top : List Ty} (hs : s.Leaves ctx script S)
    (hc : Leaves (s.names.layout ctx.registry.functions) ctx.kind r top)
    (h : (do let code ← lift r; write code : BodyM Assembly Unit) s = .ok a t) :
    t.Leaves ctx script (top ++ S) := by
  obtain ⟨code, u, hu, h⟩ := run_bind_ok h
  obtain ⟨hcode, rfl⟩ := lift_ok hu
  obtain ⟨found, hfound, hf⟩ := hc
  cases hfound.symm.trans hcode
  cases h
  exact ⟨hs.1, hs.2.writeAll (hf S)⟩

theorem condition_ensures (hn : Numbered ctx.registry.functions) (term : Term) (line : Nat) :
    Ensures (BodyState.Leaves ctx script S) (condition ctx term line) fun _ s =>
      ∃ ty, s.Leaves ctx script (ty :: S) := by
  refine .bind (value_ensures hn term line) ?_
  rintro ⟨e, ty⟩ s a t ⟨hs, hw, hty⟩ h
  exact ⟨ty, liftWrite_leaves hs (hw.valueCode_leaves ty hty) h⟩

theorem valueOf_ensures {target found : Ty} (ha : target.accepts found = true) :
    Ensures (Valued ctx script S e found) (valueOf target e) fun _ =>
      BodyState.Leaves ctx script (target :: S) := by
  rintro s a t ⟨hs, hw, hty⟩ h
  have hconv := hw.convertedTo hty ha
  exact liftWrite_leaves hs (hconv.valueCode_leaves target (Expr.convertedTo_ty e target)) h

theorem effect_ensures :
    Ensures (fun s => s.Leaves ctx script S ∧ e.WellTyped (s.names.layout ctx.registry.functions)) (effect e)
      fun _ => BodyState.Leaves ctx script S := by
  rintro s a t ⟨hs, hw⟩ h
  by_cases hl : ∃ info name, e = .label info name
  · obtain ⟨info, name, rfl⟩ := hl
    cases h
  · have hne : ∀ info name, e ≠ .label info name := fun info name he => hl ⟨info, name, he⟩
    exact liftWrite_leaves hs (hw.effectCode_leaves hne) h

theorem jumpIfFalse_ensures (label : Label) :
    Ensures (fun s => ∃ ty, BodyState.Leaves ctx script [ty] s) (write [.jumpIfFalse label])
      fun _ => BodyState.Leaves ctx script [] := by
  rintro s a t ⟨ty, hs⟩ hr
  exact write_takes (fun _ _ => .single (.jumpIfFalse label)) s a t hs hr

/-- The code of the effects of expressions is written in one layout: no effect declares a name. -/
theorem effectAll_leaves {es : List Expr} (hs : s.Leaves ctx script S)
    (hw : ∀ e ∈ es, e.WellTyped (s.names.layout ctx.registry.functions)) (h : effectAll es s = .ok a t) :
    t.Leaves ctx script S := by
  induction es generalizing s with
  | nil =>
    obtain ⟨-, rfl⟩ := run_pure_ok h
    exact hs
  | cons e rest ih =>
    obtain ⟨b, u, hu, h⟩ := run_bind_ok h
    have hus := effect_ensures s b u ⟨hs, hw e List.mem_cons_self⟩ hu
    have hnames : u.names = s.names := by
      obtain ⟨code, v, hv, hu⟩ := run_bind_ok hu
      obtain ⟨-, rfl⟩ := lift_ok hv
      cases hu
      rfl
    refine ih hus ?_ h
    intro e' he'
    rw [hnames]
    exact hw e' (List.mem_cons_of_mem _ he')

theorem effects_takes (hn : Numbered ctx.registry.functions) (terms : List Term) :
    Takes ctx script S S (effects ctx terms) := by
  intro s a t hs h
  obtain ⟨env, u, henv, h⟩ := run_bind_ok h
  cases henv
  obtain ⟨es, v, hv, h⟩ := run_bind_ok h
  obtain ⟨hes, rfl⟩ := lift_ok hv
  have hw := Env.elaborateAll_wellTyped hn hes
  exact effectAll_leaves hs hw h

theorem jumpLabel_takes (name : String) (line : Nat) : Takes ctx script S S (jumpLabel name line) := by
  intro s a t hs h
  obtain ⟨u, _, hu, h⟩ := run_bind_ok h
  cases hu
  cases hk : s.jumps.get? name with
  | some known =>
    simp only [hk] at h
    obtain ⟨-, rfl⟩ := run_pure_ok h
    exact hs
  | none =>
    simp only [hk] at h
    refine Ensures.bind (R := fun _ => BodyState.Leaves ctx script S)
      (newLabel_takes (.user name) "jump" line) (fun label => ?_) s a t hs h
    exact .bind (Q := fun _ => BodyState.Leaves ctx script S) (.modify fun _ hs => hs) fun _ =>
      .pure fun _ hs => hs

theorem defineLabel_takes (name : String) (line : Nat) :
    Takes ctx script [] [] (defineLabel name line line) := by
  refine .bind (jumpLabel_takes name line) fun label => ?_
  intro s a t hs h
  obtain ⟨u, _, hu, h⟩ := run_bind_ok h
  cases hu
  have hmark : Takes ctx script [] [] (mark label line) := mark_takes label line
  cases hk : s.jumps.get? name with
  | none =>
    simp only [hk] at h
    exact hmark s a t hs h
  | some known =>
    simp only [hk] at h
    cases hd : known.definedAt with
    | some first =>
      simp only [hd] at h
      cases h
    | none =>
      simp only [hd] at h
      exact Ensures.bind (P := BodyState.Leaves ctx script []) (.modify fun _ hs => hs) (fun _ =>
        hmark) s a t hs h

theorem declare_leaves {name : String} {ty : Ty} {slot : Nat} (hs : s.Leaves ctx script S)
    (h : declare name ty line s = .ok slot t) :
    t.Leaves ctx script S ∧ slot = s.names.locals.length ∧
      t.names.locals = s.names.locals ++ [⟨name, ty⟩] := by
  obtain ⟨u, _, hu, h⟩ := run_bind_ok h
  cases hu
  obtain ⟨⟨found, names⟩, v, hv, h⟩ := run_bind_ok h
  obtain ⟨hd, rfl⟩ := lift_ok hv
  obtain ⟨hmore, hslot, hlocals⟩ := Names.declareLocal_ok hd
  cases h
  exact ⟨⟨hmore.trans hs.1, hs.2.mono (hmore.layout _)⟩, hslot, hlocals⟩

theorem declareStore_takes (name : String) (ty : Ty) (line : Nat) :
    Takes ctx script [ty] [] (do let slot ← declare name ty line; write [.store (.loc slot)]) := by
  intro s a t hs h
  obtain ⟨slot, u, hd, h⟩ := run_bind_ok h
  obtain ⟨hu, rfl, hl⟩ := declare_leaves hs hd
  cases h
  refine ⟨hu.1, hu.2.writeAll (.single (.store ?_))⟩
  simp [Names.layout, Layout.varTy, hl]

/-- The code of a declaration stores a value of the type and leaves nothing on the stack. -/
theorem declaration_takes (hn : Numbered ctx.registry.functions) (ty : Ty) (name : String)
    (init : Option Term) (line : Nat) : Takes ctx script [] [] (declaration ctx ty name init line) := by
  have hstore : Takes ctx script [ty] [] (do let slot ← declare name ty line; write [.store (.loc slot)]) :=
    declareStore_takes name ty line
  cases init with
  | none =>
    refine .bind (Q := fun _ => BodyState.Leaves ctx script [ty]) (write_takes fun _ _ => ?_) fun _ => hstore
    simpa using CodeFits.single (.push ty.defaultValue)
  | some term =>
    intro s a t hs h
    obtain ⟨⟨e, found⟩, u, hu, h⟩ := run_bind_ok h
    have hv := value_ensures hn term line s _ u hs hu
    by_cases ha : ty.accepts found = true
    · simp only [ha, if_true] at h
      exact Ensures.bind (valueOf_ensures ha) (fun _ => hstore) u a t hv h
    · simp only [ha] at h
      cases h

theorem expression_takes (hn : Numbered ctx.registry.functions) (term : Term) (line : Nat) :
    Takes ctx script [] [] (expression ctx term line line) := by
  intro s a t hs h
  obtain ⟨e, u, hu, h⟩ := run_bind_ok h
  obtain ⟨he, rfl⟩ := elaborate_ok hu
  have hw := Env.elaborate_wellTyped hn he
  cases e with
  | label info name => exact defineLabel_takes name line s a t hs h
  | literal | load | member | unary | binary | assign | step | cast | convert | call | vector
  | rotation | list =>
    exact effect_ensures s a t ⟨hs, hw⟩ h

theorem returning_takes (hn : Numbered ctx.registry.functions) (result : Option Term) (line : Nat) :
    Takes ctx script [] [] (returning ctx result line) := by
  unfold returning
  split
  · rename_i ty term hk
    refine .bind (value_ensures hn term line) ?_
    rintro ⟨e, found⟩
    dsimp only
    split
    · rename_i ha
      refine .bind (valueOf_ensures ha) fun _ => write_takes fun _ _ => ?_
      exact .single (.retValue hk)
    · exact .throw
  · exact .throw
  · split
    · exact .throw
    · exact .throw
  · rename_i hk
    exact write_takes fun _ _ => .single (.ret hk)

theorem stateChange_takes (name : String) (line : Nat) :
    Takes ctx script [] [] (stateChange ctx name line) := by
  unfold stateChange
  split
  · exact .throw
  · rename_i hk
    intro s a t hs h
    obtain ⟨u, _, hu, h⟩ := run_bind_ok h
    cases hu
    cases hi : s.names.stateIndex? name with
    | none =>
      simp only [hi] at h
      cases h
    | some index =>
      simp only [hi] at h
      cases h
      have hlt : index < s.names.states.length := (List.findIdx?_eq_some_iff_getElem.mp hi).1
      exact ⟨hs.1, hs.2.writeAll (.single (.changeState hk hlt))⟩

theorem inScope_takes {work : BodyM Assembly Unit} (hw : Takes ctx script [] [] work) :
    Takes ctx script [] [] (inScope work) := by
  refine .bind (changeNames_takes Names.openScope_extends) fun _ => ?_
  refine .bind hw fun _ => ?_
  exact changeNames_takes Names.closeScope_extends

theorem armCondition_takes (hn : Numbered ctx.registry.functions) (construct : Construct) (term : Term)
    (line : Nat) : Takes ctx script [] [] (armCondition ctx construct term line) := by
  refine .bind (condition_ensures hn term line) fun _ => ?_
  refine .bind (Q := fun _ s => ∃ ty, s.Leaves ctx script [ty]) ?_ fun label => ?_
  · rintro s a t ⟨ty, hs⟩ h
    exact ⟨ty, newLabel_takes _ _ _ s a t hs h⟩
  · exact .bind (jumpIfFalse_ensures label) fun _ => .pure fun _ hs => hs

/-- Between the steps of a statement the stack is empty. -/
theorem congruence_takes (hn : Numbered ctx.registry.functions) :
    Congruence ctx ctx fun {_} (x _ : BodyM Assembly _) => Takes ctx script [] [] x where
  pure _ := .pure fun _ hs => hs
  bind := .bind
  throw _ := .throw
  inScope := inScope_takes
  atLine := atLine_takes
  newLabel := newLabel_takes
  jumpLabel := jumpLabel_takes
  mark := mark_takes
  jump := jump_takes
  armCondition := armCondition_takes hn
  loopCondition term line stop top _ _ h := by
    refine .bind (condition_ensures hn term line) fun _ => ?_
    refine .bind (Q := fun _ => BodyState.Leaves ctx script []) ?_ fun _ => h
    rintro s a t ⟨ty, hs⟩ hr
    refine write_takes (fun _ _ => .cons (.jumpIfFalse stop) ?_) s a t hs hr
    cases top with
    | none => exact .nil
    | some top => exact .single (.jump top)
  effects := effects_takes hn
  declaration := declaration_takes hn
  expression := expression_takes hn
  returning := returning_takes hn
  stateChange := stateChange_takes

theorem declareParams_locals (hs : s.Leaves ctx script S) (h : declareParams line params s = .ok a t) :
    t.Leaves ctx script S ∧ t.names.locals = s.names.locals ++ params := by
  induction params generalizing s with
  | nil =>
    obtain ⟨-, rfl⟩ := run_pure_ok h
    exact ⟨hs, by simp⟩
  | cons p rest ih =>
    obtain ⟨slot, u, hd, h⟩ := run_bind_ok h
    obtain ⟨hu, -, hl⟩ := declare_leaves hs hd
    obtain ⟨ht, hrest⟩ := ih hu h
    exact ⟨ht, by simp [hrest, hl]⟩

def close (stop : Nat) (code : List (Instr Label)) : BodyM Assembly Unit := do
  atLine stop
  write code
  changeNames Names.closeScope
  lift ((← get).book.expectAllMarked stop)

def lastCode : Option Ty → List (Instr Label)
  | some ty => [.push ty.defaultValue, .retValue]
  | none => [.ret]

theorem finish_closes (h : finish ctx stop s = .ok a t) :
    close stop (lastCode ctx.kind.returns) s = .ok a t := by
  obtain ⟨_, _, hget, h⟩ := run_bind_ok h
  cases hget
  cases hj : s.jumps.entries.find? fun e => e.2.definedAt.isNone with
  | some found =>
    simp only [hj] at h
    cases h
  | none =>
    simp only [hj] at h
    cases hk : ctx.kind.returns <;> simp only [hk] at h <;> exact h

theorem close_ok (h : close stop code s = .ok a t) :
    t.names = s.names.closeScope ∧ t.backend = Backend.writeAll (s.backend.atLine stop) code := by
  obtain ⟨_, s₁, h₁, h⟩ := run_bind_ok h
  cases h₁
  obtain ⟨_, s₂, h₂, h⟩ := run_bind_ok h
  cases h₂
  obtain ⟨_, s₃, h₃, h⟩ := run_bind_ok h
  cases h₃
  obtain ⟨_, s₄, h₄, h⟩ := run_bind_ok h
  cases h₄
  obtain ⟨-, rfl⟩ := lift_ok h
  exact ⟨rfl, rfl⟩

/-- The last instruction of a body is a return. -/
theorem finish_ok (hs : s.Leaves ctx script []) (h : finish ctx stop s = .ok a t) :
    t.names.Extends script ∧ ∃ before i U V, t.backend = Assembly.write before i ∧
      before.Leaves (t.names.layout ctx.registry.functions) ctx.kind U ∧
      i.Fits (t.names.layout ctx.registry.functions) ctx.kind U V ∧ i.isReturn = true := by
  have hline :
      (s.backend.atLine stop).Leaves (s.names.closeScope.layout ctx.registry.functions) ctx.kind [] :=
    hs.2.atLine stop
  have hext := (Names.closeScope_extends s.names).trans hs.1
  obtain ⟨hnames, hbackend⟩ := close_ok (finish_closes h)
  rw [hnames]
  cases hk : ctx.kind.returns with
  | none =>
    rw [hk] at hbackend
    exact ⟨hext, _, .ret, [], [], hbackend, hline, .ret hk, rfl⟩
  | some ty =>
    rw [hk] at hbackend
    have hpush := hline.write (.push ty.defaultValue)
    rw [Ty.defaultValue_ty] at hpush
    exact ⟨hext, _, .retValue, [ty], [], hbackend, hpush, .retValue hk, rfl⟩

/-- A body is compiled in three parts: its parameters, its statements and its end. -/
theorem compileTree_ok
    (h : compileTree ctx params start stop tokens (Body.start names .empty) = .ok locals s) :
    ∃ s₁ s₂, declareParams start params ⟨names.beginBody.openScope, .empty, .empty, .empty⟩ = .ok () s₁ ∧
      statements ctx none (Stmt.ofTokens start stop tokens) s₁ = .ok () s₂ ∧ finish ctx stop s₂ = .ok () s ∧
      s.names.locals = locals := by
  obtain ⟨_, _, hopen, h⟩ := run_bind_ok h
  cases hopen
  obtain ⟨_, s₁, h₁, h⟩ := run_bind_ok h
  obtain ⟨_, s₂, h₂, h⟩ := run_bind_ok h
  obtain ⟨_, _, h₃, h⟩ := run_bind_ok h
  obtain ⟨_, _, hget, h⟩ := run_bind_ok h
  cases hget
  obtain ⟨hlocals, rfl⟩ := run_pure_ok h
  exact ⟨s₁, s₂, h₁, h₂, h₃, hlocals⟩

/-- The finished code of a body is well typed, and its parameters are its first locals. -/
theorem compileTree_wellTyped (hn : Numbered ctx.registry.functions) {c : Chunk}
    (h : compileTree ctx params start stop tokens (Body.start names .empty) = .ok locals s)
    (hc : s.backend.finish locals = .ok c) :
    params <+: c.locals ∧
      c.WellTyped ((names.layout ctx.registry.functions).withLocals (c.locals.map Param.ty)) ctx.kind := by
  obtain ⟨s₂, s₃, h₂, h₃, h₄, rfl⟩ := compileTree_ok h
  have hstart : BodyState.Leaves ctx names.beginBody.openScope []
      ⟨names.beginBody.openScope, .empty, .empty, .empty⟩ := ⟨.refl _, .empty⟩
  obtain ⟨hs₂, hparams⟩ := declareParams_locals hstart h₂
  have hs₂' : s₂.Leaves ctx s₂.names [] := ⟨.refl _, hs₂.2⟩
  have hs₃ := (congruence_takes hn).statements none _ s₂ _ s₃ hs₂' h₃
  obtain ⟨hext, before, i, U, V, hw, hb, hi, hr⟩ := finish_ok hs₃ h₄
  have hlayout : s.names.layout ctx.registry.functions =
      (names.layout ctx.registry.functions).withLocals (s.names.locals.map Param.ty) := by
    have hall := hext.trans hs₂.1
    simp only [Names.layout, hall.globals, hall.functions, hall.states]
    rfl
  rw [hw] at hc
  have hl : c.locals = s.names.locals := by
    obtain ⟨entries, -, hc⟩ := bind_ok.mp hc
    cases hc
    rfl
  refine ⟨?_, ?_⟩
  · have hp : params = s₂.names.locals := by simpa [Names.beginBody, Names.openScope] using hparams.symm
    rw [hl, hp]
    exact hext.locals
  · rw [hl, ← hlayout]
    exact hb.finish hi hr rfl hc

end Body

end WorldScript
