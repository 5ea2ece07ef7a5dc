import WorldScript.Proofs.Body.Agreement
import WorldScript.Proofs.Body.Typing
import WorldScript.Proofs.Script.Plain

/-! # Programs are well typed

Every body of a compiled script is well-typed code in the layout of the whole program: what the names of
the outline say about slots and callees is what the program has there.
-/

namespace WorldScript

def Program.layout (p : Program Chunk) (r : Registry) (locals : List Ty) : Layout :=
  ⟨locals, p.globals.map GlobalSlot.ty, p.functions.map ScriptFunction.signature, r.functions,
    p.states.length⟩

def Program.BodyTyped (p : Program Chunk) (r : Registry) (kind : BodyKind) (params : List Param) (c : Chunk) :
    Prop :=
  params <+: c.locals ∧ c.WellTyped (p.layout r (c.locals.map Param.ty)) kind

structure Program.WellTyped (r : Registry) (p : Program Chunk) : Prop where
  globals : ∀ g ∈ p.globals, p.BodyTyped r (.function (some g.ty)) [] g.init
  functions : ∀ f ∈ p.functions, p.BodyTyped r (.function f.signature.returns) f.signature.params f.code
  handlers : ∀ s ∈ p.states, ∀ h ∈ s.handlers, p.BodyTyped r .event h.params h.code

namespace Outline

variable {o : Outline}

structure Consistent (o : Outline) : Prop where
  globals : o.names.globals = o.globals.map fun d => ⟨d.name, d.ty⟩
  functions : o.names.functions = o.functions.map FunctionDecl.signature
  states : o.names.states = o.states.map StateDecl.name

theorem Consistent.add {more : Outline} {d : Declaration} (ho : o.Consistent) (h : o.add d = .ok more) :
    more.Consistent := by
  cases d with
  | global d =>
    obtain ⟨names, hn, rfl⟩ := map_ok.mp h
    unfold Names.declareGlobal at hn
    split at hn
    · simp at hn
    · cases hn
      exact ⟨by simp [ho.globals], ho.functions, ho.states⟩
  | function d =>
    obtain ⟨names, hn, rfl⟩ := map_ok.mp h
    unfold Names.declareFunction at hn
    split at hn
    · simp at hn
    · cases hn
      exact ⟨ho.globals, by simp [ho.functions], ho.states⟩
  | state d =>
    obtain ⟨names, hn, rfl⟩ := map_ok.mp h
    unfold Names.declareState at hn
    split at hn
    · simp at hn
    · cases hn
      exact ⟨ho.globals, ho.functions, by simp [ho.states]⟩

theorem Consistent.addAll (ho : o.Consistent) (ds : List Declaration) : (o.addAll ds).1.Consistent := by
  induction ds generalizing o with
  | nil => exact ho
  | cons d rest ih =>
    cases hd : o.add d with
    | ok more =>
      simp only [Outline.addAll, hd]
      exact ih (ho.add hd)
    | error problem =>
      simp only [Outline.addAll, hd]
      exact ih ho

theorem ofDeclarations_consistent (ds : List Declaration) : (ofDeclarations ds).1.Consistent :=
  Consistent.addAll (o := .empty) ⟨rfl, rfl, rfl⟩ ds

end Outline

namespace Script

def stateCode {σ γ : Type} [Backend σ] (g : Generator σ γ) (env : Env) (d : StateDecl) :
    Except Diagnostic (ScriptState γ) :=
  (d.handlers.mapM (handler g env)).map fun handlers => ⟨d.name, handlers⟩

variable {σ γ : Type} [Backend σ] {env : Env} {registry : Registry} {visibility : Visibility} {o : Outline}
  {p : Program Chunk} {limit : Nat} {g : Generator σ γ} {s : List Diagnostic} {options : CompileOptions}
  {replacements : Replacements} {source : String} {ctx : BodyContext} {names : Names} {params : List Param}
  {body : Block} {c : Chunk} {d : GlobalDecl}

theorem states_clean {ds : List StateDecl} {ss : List (ScriptState γ)}
    (h : states limit g env ds s = .ok ss []) : s = [] ∧ ds.mapM (stateCode g env) = .ok ss := by
  induction ds generalizing s ss with
  | nil =>
    obtain ⟨rfl, hs⟩ := run_pure_ok h
    exact ⟨hs, rfl⟩
  | cons d rest ih =>
    obtain ⟨handlers, u, hu, h⟩ := run_bind_ok h
    obtain ⟨others, v, hv, h⟩ := run_bind_ok h
    obtain ⟨rfl, rfl⟩ := run_pure_ok h
    obtain ⟨rfl, hothers⟩ := ih hv
    obtain ⟨rfl, hh⟩ := Session.collect_clean hu
    refine ⟨rfl, ?_⟩
    simp [stateCode, hh, hothers, bind, Except.bind, pure, Except.pure, Except.map]

structure CodeOf (g : Generator σ γ) (env : Env) (o : Outline) (p : Program γ) : Prop where
  globals : o.globals.zipIdx.mapM (fun d => globalSlot g env d.1 d.2) = .ok p.globals
  functions : o.functions.mapM (function g env) = .ok p.functions
  states : o.states.mapM (stateCode g env) = .ok p.states

theorem program_clean {p : Program γ} (h : program limit g registry visibility o s = .ok p []) :
    s = [] ∧ CodeOf g ⟨registry, visibility, o.names⟩ o p := by
  obtain ⟨globals, u, hu, h⟩ := run_bind_ok h
  obtain ⟨functions, v, hv, h⟩ := run_bind_ok h
  obtain ⟨found, w, hw, h⟩ := run_bind_ok h
  obtain ⟨rfl, rfl⟩ := run_pure_ok h
  obtain ⟨rfl, hstates⟩ := states_clean hw
  obtain ⟨rfl, hfunctions⟩ := Session.collect_clean hv
  obtain ⟨rfl, hglobals⟩ := Session.collect_clean hu
  exact ⟨rfl, hglobals, hfunctions, hstates⟩

/-- The program of a source is the code of a consistent outline. -/
theorem compile_codeOf (h : compile registry options replacements source = .ok p) :
    ∃ (visibility : Visibility) (o : Outline), o.Consistent ∧
      CodeOf .chunks ⟨registry, visibility, o.names⟩ o p := by
  have h := Session.outcome_ok h
  obtain ⟨directives, s₁, h₁, h⟩ := run_bind_ok h
  obtain ⟨tokens, s₂, h₂, h⟩ := run_bind_ok h
  obtain ⟨_, s₃, h₃, h⟩ := run_bind_ok h
  split at h
  · obtain ⟨_, _, hthrow, _⟩ := run_bind_ok h
    cases hthrow
  · obtain ⟨declarations, s₄, h₄, h⟩ := run_bind_ok h
    obtain ⟨_, s₅, h₅, h⟩ := run_bind_ok h
    obtain ⟨_, s₆, h₆, h⟩ := run_bind_ok h
    exact ⟨_, _, Outline.ofDeclarations_consistent declarations, (program_clean h).2⟩

theorem bodyCode_ok (h : bodyCode .chunks ctx names params body = .ok c) :
    ∃ (locals : List Param) (s : BodyState Assembly),
      Body.compileTree ctx params body.openLine body.closeLine body.tokens (Body.start names .empty) =
        .ok locals s ∧
        s.backend.finish locals = .ok c := by
  cases hs : Body.compileTree ctx params body.openLine body.closeLine body.tokens
      (Body.start names Assembly.empty) with
  | error d s =>
    rw [bodyCode_of_error Body.assembly_reliable hs] at h
    cases h
  | ok locals s =>
    refine ⟨locals, s, rfl, ?_⟩
    rw [bodyCode_of_ok Body.assembly_reliable hs] at h
    change Except.mapError _ (s.backend.finish locals) = _ at h
    cases hf : s.backend.finish locals with
    | error label =>
      rw [hf] at h
      cases h
    | ok chunk =>
      rw [hf] at h
      cases h
      rfl

theorem bodyCode_wellTyped (hn : Numbered ctx.registry.functions)
    (h : bodyCode .chunks ctx names params body = .ok c) :
    params <+: c.locals ∧
      c.WellTyped ((names.layout ctx.registry.functions).withLocals (c.locals.map Param.ty)) ctx.kind := by
  obtain ⟨locals, s, hs, hf⟩ := bodyCode_ok h
  exact Body.compileTree_wellTyped hn hs hf

theorem initializer?_wellTyped {init : Option Expr} (h : initializer? env d = .ok init)
    (hn : Numbered env.registry.functions) :
    ∀ e, init = some e → e.WellTyped env.layout ∧ e.ty = some d.ty := by
  unfold initializer? at h
  split at h
  · cases h
    simp
  · obtain ⟨e, he, h⟩ := bind_ok.mp h
    have hw := Env.elaborate_wellTyped hn he
    split at h
    · simp at h
    · rename_i found hty
      split at h
      · rename_i ha
        cases h
        rintro _ ⟨⟩
        exact ⟨hw.convertedTo hty ha, Expr.convertedTo_ty _ _⟩
      · simp at h

theorem writeAll_append (a : Assembly) (code : List (Instr Label)) (i : Instr Label) :
    Backend.writeAll a (code ++ [i]) = (Backend.writeAll a code).write i := by
  simp [Backend.writeAll, Backend.write]

theorem globalSlot_wellTyped (hn : Numbered env.registry.functions) {slot : Nat} {g : GlobalSlot Chunk}
    (h : globalSlot .chunks env d slot = .ok g) :
    g.ty = d.ty ∧ g.init.locals = [] ∧
      g.init.WellTyped (env.layout.withLocals []) (.function (some d.ty)) := by
  simp only [globalSlot, bind_ok] at h
  obtain ⟨init, hinit, code, hcode, h⟩ := h
  have hi : ∀ e, init = some e → e.WellTyped (env.layout.withLocals []) ∧ e.ty = some d.ty :=
    initializer?_wellTyped hinit hn
  have hf : ∃ value, Expr.initializerCode init d.ty = .ok (value ++ [.retValue]) ∧
      CodeFits (env.layout.withLocals []) (.function (some d.ty)) value [] [d.ty] :=
    Expr.initializerCode_fits hi
  obtain ⟨value, hvalue, hf⟩ := hf
  cases hvalue.symm.trans hcode
  split at h
  · rename_i chunk hc
    cases h
    have hc :
        ((Backend.writeAll (Assembly.empty.atLine d.line) value).write .retValue).finish [] = .ok chunk := by
      rw [← writeAll_append]
      exact hc
    have hw := (Assembly.Leaves.empty.atLine d.line).writeAll hf
    refine ⟨rfl, ?_, hw.finish (.retValue rfl) rfl rfl hc⟩
    obtain ⟨entries, -, hentries⟩ := bind_ok.mp hc
    cases hentries
    rfl
  · simp at h

theorem function_wellTyped (hn : Numbered env.registry.functions) {d : FunctionDecl}
    {f : ScriptFunction Chunk} (h : function .chunks env d = .ok f) :
    f.signature = d.signature ∧ f.signature.params <+: f.code.locals ∧
      f.code.WellTyped (env.layout.withLocals (f.code.locals.map Param.ty))
        (.function f.signature.returns) := by
  obtain ⟨code, hcode, rfl⟩ := map_ok.mp h
  exact ⟨rfl, bodyCode_wellTyped hn hcode⟩

theorem handler_wellTyped (hn : Numbered env.registry.functions) {d : HandlerDecl} {f : Handler Chunk}
    (h : handler .chunks env d = .ok f) :
    f.params <+: f.code.locals ∧
      f.code.WellTyped (env.layout.withLocals (f.code.locals.map Param.ty)) .event := by
  obtain ⟨code, hcode, rfl⟩ := map_ok.mp h
  exact bodyCode_wellTyped hn hcode

/-- The names of a consistent outline say about slots and callees what its program has there. -/
theorem CodeOf.layout (hn : Numbered registry.functions) (ho : o.Consistent)
    (hp : CodeOf .chunks ⟨registry, visibility, o.names⟩ o p) (locals : List Ty) :
    (Env.layout ⟨registry, visibility, o.names⟩).withLocals locals = p.layout registry locals := by
  have hglobals : p.globals.map GlobalSlot.ty = o.names.globals.map Param.ty := by
    have hd := mapM_map hp.globals fun d g hg => (globalSlot_wellTyped hn hg).1
    have hfst :
        o.globals.zipIdx.map (fun d => d.1.ty) = (o.globals.zipIdx.map Prod.fst).map GlobalDecl.ty := by
      rw [List.map_map]
      rfl
    rw [hd, hfst, List.zipIdx_map_fst, ho.globals, List.map_map]
    rfl
  have hfunctions : p.functions.map ScriptFunction.signature = o.names.functions := by
    rw [mapM_map hp.functions fun d f hf => (function_wellTyped hn hf).1, ho.functions]
  have hstates : p.states.length = o.names.states.length := by
    rw [← (mapM_getElem? hp.states).1, ho.states, List.length_map]
  simp only [Layout.withLocals, Env.layout, Names.layout, Program.layout, hglobals, hfunctions, hstates]

theorem CodeOf.wellTyped (hn : Numbered registry.functions) (ho : o.Consistent)
    (hp : CodeOf .chunks ⟨registry, visibility, o.names⟩ o p) : p.WellTyped registry := by
  refine ⟨?_, ?_, ?_⟩
  · intro g hg
    obtain ⟨d, -, hd⟩ := mapM_mem hp.globals hg
    obtain ⟨hty, hl, hw⟩ := globalSlot_wellTyped hn hd
    refine ⟨List.nil_prefix, ?_⟩
    rw [hty, hl, ← hp.layout hn ho]
    exact hw
  · intro f hf
    obtain ⟨d, -, hd⟩ := mapM_mem hp.functions hf
    obtain ⟨-, hparams, hw⟩ := function_wellTyped hn hd
    rw [hp.layout hn ho] at hw
    exact ⟨hparams, hw⟩
  · intro s hs h hh
    obtain ⟨d, -, hd⟩ := mapM_mem hp.states hs
    obtain ⟨handlers, hhandlers, rfl⟩ := map_ok.mp hd
    obtain ⟨e, -, he⟩ := mapM_mem hhandlers hh
    obtain ⟨hparams, hw⟩ := handler_wellTyped hn he
    rw [hp.layout hn ho] at hw
    exact ⟨hparams, hw⟩

/-- Every body of a compiled script is well typed. -/
theorem compile_wellTyped (hr : registry.Built) (h : compile registry options replacements source = .ok p) :
    p.WellTyped registry := by
  obtain ⟨visibility, o, ho, hp⟩ := compile_codeOf h
  exact hp.wellTyped hr.numbered ho

end Script

namespace Sample

def options : CompileOptions := ⟨visibility, 20, true⟩

def source : String :=
  "integer total; integer twice(integer n) { return n * 2; } "
    ++ "default { state_entry() { while (total < 5) total = successor(twice(total)); } }"

theorem source_compiles : ∃ p, Script.compile registry options [] source = .ok p := by
  have hs : source.toList = _ ++ _ :=
    String.toList_append.trans (congrArg₂ _ String.toList_ofList String.toList_ofList)
  rw [Script.compile_of_plain hs (by decide +kernel)]
  exact ok_of_isOk (by decide +kernel)

end Sample

end WorldScript
