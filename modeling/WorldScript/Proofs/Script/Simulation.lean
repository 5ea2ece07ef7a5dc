import WorldScript.Proofs.Body.Agreement

/-! # Scripts with different receivers of code

Where two compilations agree on every part of a script, up to a map between what its bodies become, they
agree on the whole: they note the same problems in the same order, and their programs are mapped to each
other.
-/

namespace WorldScript

def Program.mapCode {γ δ : Type} (k : γ → δ) (p : Program γ) : Program δ where
  globals := p.globals.map fun g => ⟨g.name, g.ty, k g.init⟩
  functions := p.functions.map fun f => ⟨f.signature, k f.code⟩
  states := p.states.map fun s => ⟨s.name, s.handlers.map fun h => ⟨h.event, h.params, k h.code⟩⟩

section Sessions

variable {ε σ τ α β γ δ : Type}

namespace Session

/-- The same work on the same report. -/
theorem carries_refl (x : Session α) : Carries id id x x := by
  intro s
  change x s = _
  cases x s <;> rfl

theorem require_ok {limit : Nat} {r : Except Diagnostic α} {s t : List Diagnostic} {a : α}
    (h : require limit r s = .ok a t) : r = .ok a ∧ s = t := by
  cases r with
  | ok b =>
    cases h
    exact ⟨rfl, rfl⟩
  | error d =>
    obtain ⟨_, u, -, h⟩ := run_bind_ok h
    cases h

theorem collect_carries {limit : Nat} {k : β → γ} {f : α → Except Diagnostic β} {g : α → Except Diagnostic γ}
    (h : ∀ a, g a = (f a).map k) (as : List α) :
    Carries id (List.map k) (collect limit f as) (collect limit g as) := by
  induction as with
  | nil => exact .pure _
  | cons a rest ih =>
    rw [collect, collect, h a]
    cases f a with
    | ok b => exact .bind ih fun bs => .pure (b :: bs)
    | error d => exact .bind (carries_refl _) fun _ => ih

theorem outcome_carries {k : α → β} {x : Session α} {y : Session β} (h : Carries id k x y) :
    outcome y = (outcome x).map k := by
  have hnil := h []
  unfold outcome EStateM.run
  cases hx : x [] with
  | ok a t =>
    rw [hx] at hnil
    have hy : y [] = .ok (k a) t := hnil
    rw [hy]
    cases t <;> rfl
  | error e t =>
    rw [hx] at hnil
    have hy : y [] = .error e t := hnil
    rw [hy]
    rfl

end Session

end Sessions

namespace Script

variable {σ τ γ δ : Type} [Backend σ] [Backend τ]

section Parts

variable {ρ : Nat → Nat} {f : σ → τ} {k : γ → δ} {g : Generator σ γ} {g' : Generator τ δ}

/-- The code of a body is mapped if it is where the work on the body ends. -/
theorem bodyCode_carried {issued : σ → Nat} {issued' : τ → Nat} (hg : Body.Reliable issued g.start)
    (hg' : Body.Reliable issued' g'.start) (hf : Backend.Respects ρ f) (hstart : g'.start = f g.start)
    {ctx other : BodyContext} (hctx : ctx.Matches ρ other) {names : Names} {params : List Param}
    {body : Block}
    (hfinish : ∀ locals s, Body.compileTree ctx params body.openLine body.closeLine body.tokens
      (Body.start names g.start) = .ok locals s →
        g'.finish locals (f s.backend) = (g.finish locals s.backend).map k) :
    bodyCode g' other names params body = (bodyCode g ctx names params body).map k := by
  have hcarries := Body.compileTree_carries hf hctx params body.openLine body.closeLine body.tokens
    (Body.start names g.start)
  have hbegin : (Body.start names g.start).mapBackend f = Body.start names g'.start :=
    congrArg (Body.start names) hstart.symm
  rw [hbegin] at hcarries
  cases hrun : Body.compileTree ctx params body.openLine body.closeLine body.tokens
    (Body.start names g.start) with
  | error d s =>
    rw [hrun] at hcarries
    rw [bodyCode_of_error hg hrun, bodyCode_of_error hg' hcarries]
    rfl
  | ok locals s =>
    rw [hrun] at hcarries
    have hend : g'.finish locals (s.mapBackend f).backend = _ := hfinish locals s hrun
    rw [bodyCode_of_ok hg hrun, bodyCode_of_ok hg' hcarries, id_eq, hend]
    cases g.finish locals s.backend <;> rfl

theorem initializer?_renamed {env other : Env} (h : env.Matches ρ other) (d : GlobalDecl) :
    initializer? other d = (initializer? env d).map (Option.map (Expr.renamed ρ)) := by
  unfold initializer?
  split
  · rfl
  · rw [Env.elaborate_renamed h, bind_of_map]
    refine bind_congr_map fun e _ => ?_
    rw [Expr.renamed_ty]
    cases e.ty with
    | none => rfl
    | some found =>
      by_cases ha : d.ty.accepts found = true
      · simp only [ha, if_true]
        exact congrArg (fun e => Except.ok (some e)) (Expr.renamed_convertedTo e d.ty).symm
      · simp only [ha]
        rfl

/-- The first value of a variable is mapped if its finished code is. -/
theorem globalSlot_carried (hf : Backend.Respects ρ f) (hstart : g'.start = f g.start) {r r' : Registry}
    {v : Visibility} (hmatch : ∀ names, Env.Matches ρ ⟨r, v, names⟩ ⟨r', v, names⟩) {names : Names}
    {d : GlobalDecl} {slot : Nat}
    (hfinish : ∀ init code, initializer? ⟨r, v, names.beginBody.showGlobals slot⟩ d = .ok init →
      Expr.initializerCode init d.ty = .ok code →
        g'.finish [] (f (Backend.writeAll (Backend.atLine g.start d.line) code)) =
          (g.finish [] (Backend.writeAll (Backend.atLine g.start d.line) code)).map k) :
    globalSlot g' ⟨r', v, names⟩ d slot =
      (globalSlot g ⟨r, v, names⟩ d slot).map fun x => ⟨x.name, x.ty, k x.init⟩ := by
  unfold globalSlot
  dsimp only
  rw [initializer?_renamed (hmatch _), bind_of_map]
  refine bind_congr_map fun init hi => ?_
  rw [Expr.initializerCode_renamed, bind_of_map]
  refine bind_congr_map fun code hc => ?_
  rw [hstart, hf.atLine, hf.writeAll, hfinish init code hi hc]
  cases g.finish [] (Backend.writeAll (Backend.atLine g.start d.line) code) <;> rfl

end Parts

/-- Two ways to compile agree on every part of a script, with the same members in sight. -/
structure Agrees (k : γ → δ) (g : Generator σ γ) (g' : Generator τ δ) (r r' : Registry) (v : Visibility) :
    Prop where
  problems : ∀ (o : Outline) (last : Nat), o.problems r' v last = o.problems r v last
  globalSlot : ∀ (names : Names) (d : GlobalDecl) (slot : Nat), globalSlot g' ⟨r', v, names⟩ d slot =
    (globalSlot g ⟨r, v, names⟩ d slot).map fun x => ⟨x.name, x.ty, k x.init⟩
  bodyCode : ∀ (kind : BodyKind) (names : Names) (params : List Param) (body : Block),
    bodyCode g' ⟨r', v, kind⟩ names params body = (bodyCode g ⟨r, v, kind⟩ names params body).map k

namespace Agrees

variable {k : γ → δ} {g : Generator σ γ} {g' : Generator τ δ} {r r' : Registry} {v : Visibility}

theorem function (h : Agrees k g g' r r' v) (names : Names) (d : FunctionDecl) :
    function g' ⟨r', v, names⟩ d = (function g ⟨r, v, names⟩ d).map fun x => ⟨x.signature, k x.code⟩ := by
  unfold Script.function
  dsimp only
  rw [h.bodyCode]
  cases Script.bodyCode g ⟨r, v, .function d.signature.returns⟩ names d.signature.params d.body <;> rfl

theorem handler (h : Agrees k g g' r r' v) (names : Names) (d : HandlerDecl) :
    handler g' ⟨r', v, names⟩ d = (handler g ⟨r, v, names⟩ d).map fun x => ⟨x.event, x.params, k x.code⟩ := by
  unfold Script.handler
  dsimp only
  rw [h.bodyCode]
  cases Script.bodyCode g ⟨r, v, .event⟩ names d.params d.body <;> rfl

theorem states (h : Agrees k g g' r r' v) (limit : Nat) (names : Names) (ds : List StateDecl) :
    Carries id (List.map fun s => ⟨s.name, s.handlers.map fun x => ⟨x.event, x.params, k x.code⟩⟩)
      (states limit g ⟨r, v, names⟩ ds) (states limit g' ⟨r', v, names⟩ ds) := by
  induction ds with
  | nil => exact .pure _
  | cons d rest ih =>
    refine .bind (Session.collect_carries (h.handler names) d.handlers) fun handlers => ?_
    exact .bind ih fun others => .pure (⟨d.name, handlers⟩ :: others)

theorem program (h : Agrees k g g' r r' v) (limit : Nat) (o : Outline) :
    Carries id (Program.mapCode k) (program limit g r v o) (program limit g' r' v o) := by
  refine .bind (Session.collect_carries (fun d => h.globalSlot o.names d.1 d.2) o.globals.zipIdx)
    fun globals => ?_
  refine .bind (Session.collect_carries (h.function o.names) o.functions) fun functions => ?_
  refine .bind (h.states limit o.names o.states) fun states => ?_
  exact .pure (⟨globals, functions, states⟩ : Program γ)

end Agrees

/-- Agreement on the parts is agreement on the whole. -/
theorem work_carries {k : γ → δ} {g : Generator σ γ} {g' : Generator τ δ} {r r' : Registry}
    (options : CompileOptions) (replacements : Replacements) (source : String)
    (hlong : r'.longIntegers = r.longIntegers)
    (h : ∀ ds, Directive.ofSource replacements source = .ok ds →
      Agrees k g g' r r' (Directive.applyAll options.visibility ds)) :
    Carries id (Program.mapCode k) (work g r options replacements source)
      (work g' r' options replacements source) := by
  have hproblems (tokens : List Token) : longProblems r' tokens = longProblems r tokens := by
    rw [longProblems, hlong, longProblems]
  refine .bind_of (Session.carries_refl _) fun s ds t hds => ?_
  obtain ⟨hds, -⟩ := Session.require_ok hds
  have hagrees := h ds hds
  refine .bind (Session.carries_refl _) fun tokens => ?_
  dsimp only [id_eq]
  rw [hproblems]
  refine .bind (Session.carries_refl _) fun _ => ?_
  by_cases hl : (!(longProblems r tokens).isEmpty) = true
  · simp only [hl, if_true]
    exact .throw_bind ()
  · simp only [hl]
    refine .bind (Session.carries_refl _) fun declarations => ?_
    refine .bind (Session.carries_refl _) fun _ => ?_
    dsimp only [id_eq]
    rw [hagrees.problems]
    exact .bind (Session.carries_refl _) fun _ => hagrees.program _ _

end Script

end WorldScript
