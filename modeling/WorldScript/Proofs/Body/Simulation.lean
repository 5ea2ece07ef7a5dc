import WorldScript.Proofs.Body.Congruence
import WorldScript.Proofs.Expr.Renaming

/-! # Bodies with different receivers of code

The work on a body asks its receiver of code for labels and tells it everything else.  So receivers that
issue the same labels lead to the same diagnostics and to the same local slots, and a map between them
that respects each operation respects the whole body.
-/

namespace WorldScript

section Carries

variable {ε σ τ α β γ δ : Type}

def Carries (F : σ → τ) (k : α → β) (x : EStateM ε σ α) (y : EStateM ε τ β) : Prop :=
  ∀ s, y (F s) = match x s with
    | .ok a t => .ok (k a) (F t)
    | .error e t => .error e (F t)

namespace Carries

variable {F : σ → τ} {k : α → β} {m : γ → δ} {f : α → EStateM ε σ γ} {g : β → EStateM ε τ δ}

theorem pure (a : α) : Carries F k (pure a : EStateM ε σ α) (pure (k a)) := fun _ => rfl

/-- Only results that there can be matter to what follows. -/
theorem bind_of {x : EStateM ε σ α} {y : EStateM ε τ β} (hx : Carries F k x y)
    (hf : ∀ s a t, x s = .ok a t → Carries F m (f a) (g (k a))) : Carries F m (x >>= f) (y >>= g) := by
  intro s
  have hy := hx s
  cases h : x s with
  | ok a t =>
    rw [h] at hy
    rw [run_bind_of_ok h, run_bind_of_ok hy]
    exact hf s a t h t
  | error e t =>
    rw [h] at hy
    rw [run_bind_of_error h, run_bind_of_error hy]

theorem bind {x : EStateM ε σ α} {y : EStateM ε τ β} (hx : Carries F k x y)
    (hf : ∀ a, Carries F m (f a) (g (k a))) : Carries F m (x >>= f) (y >>= g) :=
  hx.bind_of fun _ a _ _ => hf a

theorem throw (e : ε) : Carries F k (throw e : EStateM ε σ α) (throw e) := fun _ => rfl

theorem throw_bind (e : ε) :
    Carries F m (MonadExcept.throw e >>= f) (MonadExcept.throw e >>= g) := fun _ => rfl

theorem get : Carries F F (get : EStateM ε σ σ) get := fun _ => rfl

theorem modify {f : σ → σ} {g : τ → τ} (h : ∀ s, g (F s) = F (f s)) :
    Carries F id (modify f : EStateM ε σ Unit) (modify g) := fun s => congrArg (EStateM.Result.ok ()) (h s)

end Carries

end Carries

/-- A map between receivers that respects every operation; instructions are renamed on the way. -/
structure Backend.Respects {σ τ : Type} [Backend σ] [Backend τ] (ρ : Nat → Nat) (f : σ → τ) : Prop where
  newLabel : ∀ b : σ, Backend.newLabel (f b) = ((Backend.newLabel b).1, f (Backend.newLabel b).2)
  place : ∀ (b : σ) (l : Label), Backend.place (f b) l = f (Backend.place b l)
  write : ∀ (b : σ) (i : Instr Label), Backend.write (f b) (i.renamed ρ) = f (Backend.write b i)
  atLine : ∀ (b : σ) (line : Nat), Backend.atLine (f b) line = f (Backend.atLine b line)

theorem Backend.Respects.writeAll {σ τ : Type} [Backend σ] [Backend τ] {ρ : Nat → Nat} {f : σ → τ}
    (h : Respects ρ f) (b : σ) (code : List (Instr Label)) :
    Backend.writeAll (f b) (code.map (Instr.renamed ρ)) = f (Backend.writeAll b code) := by
  induction code generalizing b with
  | nil => rfl
  | cons i rest ih =>
    exact (congrArg (Backend.writeAll · (rest.map (Instr.renamed ρ))) (h.write b i)).trans (ih _)

def BodyState.mapBackend {σ τ : Type} (f : σ → τ) (s : BodyState σ) : BodyState τ :=
  ⟨s.names, s.book, s.jumps, f s.backend⟩

/-- Names stand for the same in the bodies of two contexts, but for the numbers of host functions. -/
structure BodyContext.Matches (ρ : Nat → Nat) (ctx other : BodyContext) : Prop where
  kind : other.kind = ctx.kind
  env : ∀ names : Names,
    Env.Matches ρ ⟨ctx.registry, ctx.visibility, names⟩ ⟨other.registry, other.visibility, names⟩

theorem BodyContext.Matches.refl (ctx : BodyContext) : ctx.Matches id ctx := ⟨rfl, fun _ => .refl _⟩

namespace Body

open BodyM

variable {σ τ : Type} {ρ : Nat → Nat} {f : σ → τ} {ctx other : BodyContext}

theorem lift_carries {α β : Type} {k : α → β} {r : Except Diagnostic α} :
    Carries (BodyState.mapBackend f) k (lift r) (lift (r.map k)) := by
  cases r with
  | ok a => exact .pure a
  | error d => exact .throw d

theorem liftSame_carries {α : Type} {r : Except Diagnostic α} :
    Carries (BodyState.mapBackend f) id (lift r) (lift r) := by
  cases r with
  | ok a => exact .pure a
  | error d => exact .throw d

theorem changeNames_carries (g : Names → Names) :
    Carries (BodyState.mapBackend f) id (changeNames g) (changeNames g) := .modify fun _ => rfl

theorem declare_carries (name : String) (ty : Ty) (line : Nat) :
    Carries (BodyState.mapBackend f) id (declare name ty line) (declare name ty line) :=
  .bind .get fun _ => .bind liftSame_carries fun _ _ => rfl

variable [Backend σ] [Backend τ]

section Steps

variable (hf : Backend.Respects ρ f)

include hf

theorem atLine_carries (line : Nat) : Carries (BodyState.mapBackend f) id (atLine line) (atLine line) :=
  .modify fun s => congrArg (BodyState.mk s.names s.book s.jumps) (hf.atLine s.backend line)

theorem write_carries (code : List (Instr Label)) :
    Carries (BodyState.mapBackend f) id (write code) (write (code.map (Instr.renamed ρ))) :=
  .modify fun s => congrArg (BodyState.mk s.names s.book s.jumps) (hf.writeAll s.backend code)

/-- One instruction that calls no host function. -/
theorem writeOne_carries {i : Instr Label} (hi : i.renamed ρ = i) :
    Carries (BodyState.mapBackend f) id (write [i]) (write [i]) := by
  have h := write_carries hf [i]
  rwa [List.map_singleton, hi] at h

theorem newLabel_carries (purpose : LabelPurpose) (construct : String) (line : Nat) :
    Carries (BodyState.mapBackend f) id (newLabel purpose construct line)
      (newLabel purpose construct line) := by
  intro s
  have hissued {υ : Type} [Backend υ] (t : BodyState υ) : newLabel purpose construct line t =
      .ok (Backend.newLabel t.backend).1 { t with
        backend := (Backend.newLabel t.backend).2
        book := t.book.record (Backend.newLabel t.backend).1 ⟨purpose, construct, line⟩ } := rfl
  rw [hissued, hissued]
  dsimp only [BodyState.mapBackend]
  rw [hf.newLabel]
  rfl

theorem mark_carries (label : Label) (line : Nat) :
    Carries (BodyState.mapBackend f) id (mark label line) (mark label line) := by
  refine .bind .get fun s => .bind liftSame_carries fun book t => ?_
  exact congrArg (EStateM.Result.ok ())
    (congrArg (BodyState.mk s.names book s.jumps) (hf.place s.backend label))

theorem jumpLabel_carries (name : String) (line : Nat) :
    Carries (BodyState.mapBackend f) id (jumpLabel name line) (jumpLabel name line) := by
  refine .bind .get fun s => ?_
  dsimp only [BodyState.mapBackend]
  cases s.jumps.get? name with
  | some known => exact .pure _
  | none =>
    refine .bind (newLabel_carries hf _ _ _) fun label => ?_
    exact .bind (.modify fun _ => rfl) fun _ => .pure _

theorem defineLabel_carries (name : String) (line : Nat) :
    Carries (BodyState.mapBackend f) id (defineLabel name line line) (defineLabel name line line) := by
  refine .bind (jumpLabel_carries hf name line) fun label => .bind .get fun s => ?_
  have hmark := mark_carries hf label line
  dsimp only [BodyState.mapBackend]
  cases s.jumps.get? name with
  | none => exact hmark
  | some known =>
    cases hd : known.definedAt with
    | some first =>
      simp only [hd]
      exact .throw_bind _
    | none =>
      simp only [hd]
      exact .bind (.modify fun _ => rfl) fun _ => hmark

end Steps

omit [Backend σ] [Backend τ] in
theorem inScope_carries {work : BodyM σ Unit} {work' : BodyM τ Unit}
    (h : Carries (BodyState.mapBackend f) id work work') :
    Carries (BodyState.mapBackend f) id (inScope work) (inScope work') :=
  .bind (changeNames_carries _) fun _ => .bind h fun _ => changeNames_carries _

omit [Backend σ] [Backend τ] in
theorem elaborate_carries (hctx : ctx.Matches ρ other) (term : Term) :
    Carries (BodyState.mapBackend f) (Expr.renamed ρ) (elaborate ctx term) (elaborate other term) := by
  intro s
  have h := lift_carries (f := f) (k := Expr.renamed ρ)
    (r := Env.elaborate ⟨ctx.registry, ctx.visibility, s.names⟩ term) s
  rw [← Env.elaborate_renamed (hctx.env s.names)] at h
  exact h

omit [Backend σ] [Backend τ] in
theorem value_carries (hctx : ctx.Matches ρ other) (term : Term) (line : Nat) :
    Carries (BodyState.mapBackend f) (fun r => (r.1.renamed ρ, r.2)) (value ctx term line)
      (value other term line) := by
  refine .bind (elaborate_carries hctx term) fun e => ?_
  rw [Expr.renamed_ty]
  cases e.ty with
  | some ty => exact .pure _
  | none => exact .throw _

section Expressions

variable (hf : Backend.Respects ρ f)

include hf

/-- Code that was found is written. -/
theorem liftWrite_carries {r r' : Except Diagnostic (List (Instr Label))}
    (hr : r' = r.map (List.map (Instr.renamed ρ))) :
    Carries (BodyState.mapBackend f) id (do let code ← lift r; write code)
      (do let code ← lift r'; write code) := by
  subst hr
  exact .bind lift_carries fun code => write_carries hf code

theorem valueOf_carries (ty : Ty) (e : Expr) :
    Carries (BodyState.mapBackend f) id (valueOf ty e) (valueOf ty (e.renamed ρ)) :=
  liftWrite_carries hf (by rw [← Expr.renamed_convertedTo, Expr.valueCode_renamed])

theorem effect_carries (e : Expr) : Carries (BodyState.mapBackend f) id (effect e) (effect (e.renamed ρ)) :=
  liftWrite_carries hf (Expr.effectCode_renamed e)

theorem effectAll_carries (es : List Expr) :
    Carries (BodyState.mapBackend f) id (effectAll es) (effectAll (es.map (Expr.renamed ρ))) := by
  induction es with
  | nil => exact .pure _
  | cons e rest ih => exact .bind (effect_carries hf e) fun _ => ih

variable (hctx : ctx.Matches ρ other)

include hctx

theorem condition_carries (term : Term) (line : Nat) :
    Carries (BodyState.mapBackend f) id (condition ctx term line) (condition other term line) :=
  .bind (value_carries hctx term line) fun r => liftWrite_carries hf (Expr.valueCode_renamed r.1)

theorem effects_carries (terms : List Term) :
    Carries (BodyState.mapBackend f) id (effects ctx terms) (effects other terms) := by
  intro s
  have h := Carries.bind (lift_carries (f := f) (k := List.map (Expr.renamed ρ))
    (r := Env.elaborateAll ⟨ctx.registry, ctx.visibility, s.names⟩ terms)) (effectAll_carries hf) s
  rw [← Env.elaborateAll_renamed (hctx.env s.names)] at h
  exact h

theorem declaration_carries (ty : Ty) (name : String) (init : Option Term) (line : Nat) :
    Carries (BodyState.mapBackend f) id (declaration ctx ty name init line)
      (declaration other ty name init line) := by
  have hstore :
      Carries (BodyState.mapBackend f) id (do let slot ← declare name ty line; write [.store (.loc slot)])
      (do let slot ← declare name ty line; write [.store (.loc slot)]) :=
    .bind (declare_carries name ty line) fun slot => writeOne_carries hf rfl
  cases init with
  | none => exact .bind (writeOne_carries hf rfl) fun _ => hstore
  | some term =>
    refine .bind (value_carries hctx term line) fun r => ?_
    by_cases ha : ty.accepts r.2 = true
    · simp only [ha, if_true]
      exact .bind (valueOf_carries hf ty r.1) fun _ => hstore
    · simp only [ha]
      exact .throw_bind _

theorem expression_carries (term : Term) (line : Nat) :
    Carries (BodyState.mapBackend f) id (expression ctx term line line)
      (expression other term line line) := by
  refine .bind (elaborate_carries hctx term) fun e => ?_
  cases e with
  | label info name => exact defineLabel_carries hf name line
  | literal | load | member | unary | binary | assign | step | cast | convert | call | vector
  | rotation | list =>
    exact effect_carries hf _

theorem returning_carries (result : Option Term) (line : Nat) :
    Carries (BodyState.mapBackend f) id (returning ctx result line) (returning other result line) := by
  unfold returning
  rw [hctx.kind]
  split
  · rename_i ty term _
    refine .bind (value_carries hctx term line) fun r => ?_
    by_cases ha : ty.accepts r.2 = true
    · simp only [ha, if_true]
      exact .bind (valueOf_carries hf ty r.1) fun _ => writeOne_carries hf rfl
    · simp only [ha]
      exact .throw _
  · exact .throw _
  · split <;> exact .throw _
  · exact writeOne_carries hf rfl

theorem stateChange_carries (name : String) (line : Nat) :
    Carries (BodyState.mapBackend f) id (stateChange ctx name line) (stateChange other name line) := by
  unfold stateChange
  rw [hctx.kind]
  split
  · exact .throw _
  · refine .bind .get fun s => ?_
    dsimp only [BodyState.mapBackend]
    cases s.names.stateIndex? name with
    | some index => exact writeOne_carries hf rfl
    | none => exact .throw _

theorem armCondition_carries (construct : Construct) (term : Term) (line : Nat) :
    Carries (BodyState.mapBackend f) id (armCondition ctx construct term line)
      (armCondition other construct term line) := by
  refine .bind (condition_carries hf hctx term line) fun _ => ?_
  refine .bind (newLabel_carries hf _ _ _) fun label => ?_
  exact .bind (writeOne_carries hf rfl) fun _ => .pure _

end Expressions

/-- A map between receivers of code goes through every step of the work. -/
theorem congruence_carries (hf : Backend.Respects ρ f) (hctx : ctx.Matches ρ other) :
    Congruence ctx other fun {_} x y => Carries (BodyState.mapBackend f) id x y where
  pure := .pure
  bind := .bind
  throw := .throw
  inScope := inScope_carries
  atLine := atLine_carries hf
  newLabel := newLabel_carries hf
  jumpLabel := jumpLabel_carries hf
  mark := mark_carries hf
  jump _ := writeOne_carries hf rfl
  armCondition := armCondition_carries hf hctx
  loopCondition term line stop top _ _ h := by
    refine .bind (condition_carries hf hctx term line) fun _ => ?_
    have hwrite := write_carries hf (.jumpIfFalse stop :: (top.map Instr.jump).toList)
    cases top with
    | none => exact .bind hwrite fun _ => h
    | some top => exact .bind hwrite fun _ => h
  effects := effects_carries hf hctx
  declaration := declaration_carries hf hctx
  expression := expression_carries hf hctx
  returning := returning_carries hf hctx
  stateChange := stateChange_carries hf hctx

omit [Backend σ] [Backend τ] in
theorem declareParams_carries (line : Nat) (params : List Param) :
    Carries (BodyState.mapBackend f) id (declareParams line params) (declareParams line params) := by
  induction params with
  | nil => exact .pure _
  | cons p rest ih => exact .bind (declare_carries p.name p.ty line) fun _ => ih

theorem finish_carries (hf : Backend.Respects ρ f) (hctx : ctx.Matches ρ other) (stop : Nat) :
    Carries (BodyState.mapBackend f) id (finish ctx stop) (finish other stop) := by
  have hend : Carries (BodyState.mapBackend f) id
      (do changeNames Names.closeScope; lift ((← get).book.expectAllMarked stop))
      (do changeNames Names.closeScope; lift ((← get).book.expectAllMarked stop)) :=
    .bind (changeNames_carries _) fun _ => .bind .get fun _ => liftSame_carries
  unfold finish
  rw [hctx.kind]
  refine .bind .get fun s => ?_
  dsimp only [BodyState.mapBackend]
  cases s.jumps.entries.find? fun e => e.2.definedAt.isNone with
  | some found => exact .throw_bind _
  | none =>
    refine .bind (atLine_carries hf stop) fun _ => ?_
    cases ctx.kind.returns with
    | some ty => exact .bind (write_carries hf [.push ty.defaultValue, .retValue]) fun _ => hend
    | none => exact .bind (writeOne_carries hf rfl) fun _ => hend

/-- A body is the same for two receivers, as far as its diagnostic and its local slots go. -/
theorem compileTree_carries (hf : Backend.Respects ρ f) (hctx : ctx.Matches ρ other) (params : List Param)
    (opening stop : Nat) (tokens : List Token) :
    Carries (BodyState.mapBackend f) id (compileTree ctx params opening stop tokens)
      (compileTree other params opening stop tokens) := by
  refine .bind (changeNames_carries _) fun _ => .bind (declareParams_carries opening params) fun _ => ?_
  refine .bind ((congruence_carries hf hctx).statements none _) fun _ =>
    .bind (finish_carries hf hctx stop) fun _ => ?_
  exact .bind .get fun s => .pure _

end Body

end WorldScript
