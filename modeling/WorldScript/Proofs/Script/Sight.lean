import WorldScript.Proofs.Capability.Lookup
import WorldScript.Proofs.Script.Reports
import WorldScript.Proofs.Script.Simulation
import WorldScript.Proofs.Script.Typing

/-! # What a program refers to

A program calls host functions, has the values of host constants in its code and handles host events.  All
of them are members that its script may see, once its own directives are carried out.
-/

namespace WorldScript

/-- The values that a script comes to with some constants: those that it spells, those of the constants,
the negatives of both, and the values that operations bring with them. -/
inductive Given (tokens : List Token) (constants : List HostConstant) : Value → Prop
  | literal {t : Token} {a : Value} (ht : t ∈ tokens) (ha : Grammar.literal? t = some a) :
    Given tokens constants a
  | constant {c : HostConstant} (hc : c ∈ constants) : Given tokens constants (c.value.coerce c.ty)
  | negated (info : Info) {a b : Value} (ha : Given tokens constants a)
    (hb : Expr.negated? (.literal info a) = some b) : Given tokens constants b
  | one {ty : Ty} {a : Value} (ha : ty.one? = some a) : Given tokens constants a
  | default (ty : Ty) : Given tokens constants ty.defaultValue

namespace Vocabulary

def inSight (b : Builder) (v : Visibility) (tokens : List Token) : Vocabulary :=
  ⟨Given tokens (b.visibleConstants v), fun id => ∃ f ∈ b.visibleFunctions v, f.id = id⟩

variable {b : Builder} {v : Visibility} {tokens : List Token}

theorem inSight_covers (hb : b.Reachable) : (inSight b v tokens).Covers (.ofBuilder b) v where
  constant name c hc := by
    rw [Registry.constant?_ofBuilder] at hc
    exact .constant (List.mem_of_find?_eq_some hc)
  function name f hf := by
    rw [Registry.overloads_ofBuilder hb] at hf
    exact ⟨f, (List.mem_filter.mp hf).1, rfl⟩
  negated info a c ha hc := .negated info ha hc
  one ty a ha := .one ha
  default ty := .default ty

theorem inSight_admits : (inSight b v tokens).leaves.Admits tokens where
  literal t ht a ha := .literal ht ha
  integer t ht i hi := by
    have hliteral : Grammar.literal? t = some (.integer i) := by simp [Grammar.literal?, hi]
    exact .negated ⟨none, 0⟩ (.literal ht hliteral) rfl
  float t ht x hx := by
    have hliteral : Grammar.literal? t = some (.float x) := by simp [Grammar.literal?, hx]
    exact .negated ⟨none, 0⟩ (.literal ht hliteral) rfl
  syntactic line cause := Diagnostic.syntactic_blames line cause

end Vocabulary

structure Program.InSight (b : Builder) (v : Visibility) (tokens : List Token) (p : Program Chunk) :
    Prop where
  code : p.Within (.inSight b v tokens)
  events : ∀ s ∈ p.states, ∀ h ∈ s.handlers, ∃ e ∈ b.visibleEvents v,
    e.name = h.event ∧ e.params = h.params.map Param.ty

/-- Handlers without problems are for events that may be seen. -/
theorem Outline.event_of_handlerProblems {r : Registry} {v : Visibility} {state : String}
    {before : List String} {ds : List HandlerDecl} (h : handlerProblems r v state before ds = []) :
    ∀ d ∈ ds, ∃ e, r.event? d.name v = some e ∧ e.params = d.params.map Param.ty := by
  induction ds generalizing before with
  | nil => simp
  | cons first rest ih =>
    obtain ⟨hfirst, hrest⟩ := List.append_eq_nil_iff.mp h
    intro d hd
    obtain rfl | hd := List.mem_cons.mp hd
    · unfold handlerProblem? at hfirst
      split at hfirst
      · cases hfirst
      · split at hfirst
        · cases hfirst
        · rename_i e he
          split at hfirst
          · rename_i hparams
            exact ⟨e, he, hparams.symm⟩
          · cases hfirst
    · exact ih hrest d hd

namespace Script

variable {options : CompileOptions} {replacements : Replacements} {source : String} {p : Program Chunk}

def effectiveVisibility (options : CompileOptions) (replacements : Replacements) (source : String) :
    Visibility :=
  match Directive.ofSource replacements source with
  | .ok ds => Directive.applyAll options.visibility ds
  | .error _ => options.visibility

theorem effectiveVisibility_of_ok {ds : List (Nat × Directive)}
    (h : Directive.ofSource replacements source = .ok ds) :
    effectiveVisibility options replacements source = Directive.applyAll options.visibility ds := by
  rw [effectiveVisibility, h]

/-- The stages of a compilation that goes well. -/
theorem compile_stages {registry : Registry} (h : compile registry options replacements source = .ok p) :
    ∃ ds tokens declarations, Directive.ofSource replacements source = .ok ds ∧
      tokenize (Directive.blank replacements ds) source = .ok tokens ∧
      Declaration.listOfTokens tokens = .ok declarations ∧
      (Outline.ofDeclarations declarations).1.problems registry
        (effectiveVisibility options replacements source) (lastLine 1 tokens) = [] ∧
      CodeOf .chunks ⟨registry, effectiveVisibility options replacements source,
        (Outline.ofDeclarations declarations).1.names⟩ (Outline.ofDeclarations declarations).1 p := by
  have h := Session.outcome_ok h
  obtain ⟨ds, s₁, hds, h⟩ := run_bind_ok h
  obtain ⟨tokens, s₂, htokens, h⟩ := run_bind_ok h
  obtain ⟨_, s₃, -, h⟩ := run_bind_ok h
  obtain ⟨hds, -⟩ := Session.require_ok hds
  obtain ⟨htokens, -⟩ := Session.require_ok htokens
  rw [effectiveVisibility_of_ok hds]
  split at h
  · obtain ⟨_, _, hthrow, _⟩ := run_bind_ok h
    cases hthrow
  · obtain ⟨declarations, s₄, hdeclarations, h⟩ := run_bind_ok h
    obtain ⟨_, s₅, -, h⟩ := run_bind_ok h
    obtain ⟨_, s₆, hproblems, h⟩ := run_bind_ok h
    obtain ⟨rfl, hcode⟩ := program_clean h
    have hnone := (List.append_eq_nil_iff.mp (Session.noteAll_ok hproblems).symm).2
    exact ⟨ds, tokens, declarations, hds, htokens, (Session.require_ok hdeclarations).1, hnone, hcode⟩

theorem CodeOf.within {V : Vocabulary} {registry : Registry} {visibility : Visibility} {o : Outline}
    {tokens : List Token} {ds : List Declaration} (hp : CodeOf .chunks ⟨registry, visibility, o.names⟩ o p)
    (hV : V.Covers registry visibility) (ht : V.leaves.Admits tokens) (ho : o.Drawn ds)
    (hds : ∀ d ∈ ds, d.tokens ⊆ tokens) : p.Within V := by
  refine ⟨?_, ?_, ?_⟩
  · intro g hg
    obtain ⟨d, hd, hslot⟩ := mapM_mem hp.globals hg
    have hmem : d.1 ∈ o.globals := List.fst_mem_of_mem_zipIdx hd
    exact (globalSlot_yields hV (ht.mono (hds _ (ho.globals d.1 hmem))) d.2).of_ok hslot
  · intro f hf
    obtain ⟨d, hd, hfunction⟩ := mapM_mem hp.functions hf
    exact (function_yields hV (ht.mono (hds _ (ho.functions d hd)))).of_ok hfunction
  · intro s hs h hh
    obtain ⟨d, hd, hstate⟩ := mapM_mem hp.states hs
    obtain ⟨handlers, hhandlers, rfl⟩ := map_ok.mp hstate
    obtain ⟨k, hk, hhandler⟩ := mapM_mem hhandlers hh
    have hsub : k.body.tokens ⊆ tokens :=
      fun t ht => hds _ (ho.states d hd) (List.mem_flatMap.mpr ⟨k, hk, ht⟩)
    exact (handler_yields hV (ht.mono hsub)).of_ok hhandler

/-- A compiled program refers to nothing but what its script may see. -/
theorem compile_inSight {b : Builder} (hb : b.Reachable)
    (h : compile (.ofBuilder b) options replacements source = .ok p) :
    ∃ ds tokens, Directive.ofSource replacements source = .ok ds ∧
      tokenize (Directive.blank replacements ds) source = .ok tokens ∧
      p.InSight b (effectiveVisibility options replacements source) tokens := by
  obtain ⟨ds, tokens, declarations, hds, htokens, hdeclarations, hproblems, hcode⟩ := compile_stages h
  refine ⟨ds, tokens, hds, htokens, ?_, ?_⟩
  · exact hcode.within (Vocabulary.inSight_covers hb) Vocabulary.inSight_admits
      (Outline.ofDeclarations_drawn declarations).1
        ((Declaration.listOfTokens_yields tokens).of_ok hdeclarations)
  · intro s hs k hk
    obtain ⟨d, hd, hstate⟩ := mapM_mem hcode.states hs
    obtain ⟨handlers, hhandlers, rfl⟩ := map_ok.mp hstate
    obtain ⟨decl, hdecl, hhandler⟩ := mapM_mem hhandlers hk
    obtain ⟨code, -, rfl⟩ := map_ok.mp hhandler
    -- an outline without problems has an event for each handler
    have hnone := List.flatMap_eq_nil_iff.mp (List.append_eq_nil_iff.mp hproblems).2 d hd
    obtain ⟨e, he, hparams⟩ := Outline.event_of_handlerProblems hnone decl hdecl
    rw [Registry.event?_ofBuilder hb] at he
    obtain ⟨dialect, -, hfind⟩ := List.exists_of_findSome?_eq_some he
    have hname := List.find?_some hfind
    simp only [Registry.answers, Bool.and_eq_true, decide_eq_true_eq] at hname
    exact ⟨e, List.mem_of_find?_eq_some hfind, hname.1, hparams⟩

end Script

end WorldScript
