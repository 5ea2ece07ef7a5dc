import WorldScript.Proofs.Body.Placement

/-! # Jumps lead to their labels

A body is accepted if it is accepted without its jumps and labels, no label is defined twice, and every name
that is jumped to is defined.  Then each jump leads to the instruction after its label.

The two bodies issue different labels and write different code, but their scopes are the same throughout.  So
the work on the one is followed along the work on the other, and only a label can stop it.
-/

namespace WorldScript

namespace Survey

open BodyM
open Body (Unrelated)

variable {ctx : BodyContext} {α β γ δ : Type} {R : α → β → Prop} {S : γ → δ → Prop}

/-- Where `y` comes to an end, `x` does so with the same names and notes the sites, or there is a defect
of the compiler, or some label comes twice. -/
def Traces (R : α → β → Prop) (sites : List Site) (x : Surveying α) (y : BodyM Assembly β) : Prop :=
  ∀ u t b t', u.Sound → u.body.names = t.names → y t = .ok b t' →
    match x u with
    | .ok a u' => R a b ∧ u'.body.names = t'.names ∧ u'.Sound ∧ u'.sites = u.sites ++ sites
    | .error d _ => d.BlamesScript → ¬ (labelsOf (u.sites ++ sites)).Nodup

namespace Traces

variable {x : Surveying α} {y : BodyM Assembly β} {f : α → Surveying γ} {g : β → BodyM Assembly δ}
  {sites more : List Site}

theorem bind (hx : Traces R sites x y) (hf : ∀ a b, R a b → Traces S more (f a) (g b)) :
    Traces S (sites ++ more) (x >>= f) (y >>= g) := by
  intro u t c t' hu hn hy
  obtain ⟨b, t₁, hy, hg⟩ := run_bind_ok hy
  have hfirst := hx u t b t₁ hu hn hy
  cases hxu : x u with
  | error d u₁ =>
    rw [hxu] at hfirst
    rw [run_bind_of_error hxu]
    intro hd hnodup
    rw [← List.append_assoc, labelsOf_append] at hnodup
    exact hfirst hd (List.nodup_append.mp hnodup).1
  | ok a u₁ =>
    rw [hxu] at hfirst
    obtain ⟨hab, hn₁, hu₁, hsites₁⟩ := hfirst
    rw [run_bind_of_ok hxu]
    have hrest := hf a b hab u₁ t₁ c t' hu₁ hn₁ hg
    rw [hsites₁, List.append_assoc] at hrest
    exact hrest

theorem quiet {z : BodyM Assembly α} (h : Body.Echoes R z y) : Traces R [] (quietly z) y := by
  intro u t b t' hu hn hy
  have hrun := h u.body t b t' hu.tidy hn hy
  unfold quietly
  cases hz : z u.body with
  | error d s =>
    rw [hz] at hrun
    exact fun hd => absurd hd hrun
  | ok a s =>
    rw [hz] at hrun
    obtain ⟨hab, hn', hgrows, hj⟩ := hrun
    exact ⟨hab, hn', hu.grow hgrows hj, (List.append_nil _).symm⟩

/-- Work without notes comes first. -/
theorem before {z : BodyM Assembly α} (hz : Body.Echoes R z y)
    (hf : ∀ a b, R a b → Traces S sites (f a) (g b)) :
    Traces S sites (quietly z >>= f) (y >>= g) := bind (quiet hz) hf

/-- Work without notes comes last. -/
theorem after (hx : Traces R sites x y) (hf : ∀ a b, R a b → Traces S [] (f a) (g b)) :
    Traces S sites (x >>= f) (y >>= g) := by
  have h := bind hx hf
  rwa [List.append_nil] at h

theorem inScope {x : Surveying Unit} {y : BodyM Assembly Unit} (h : Traces Unrelated sites x y) :
    Traces Unrelated sites (inScope x) (Body.inScope y) := by
  refine before (Body.changeNames_echoes _) fun _ _ _ => after h fun _ _ _ => ?_
  exact quiet (Body.changeNames_echoes _)

end Traces

theorem jump_traces (loop : Option LoopLabels) (name : String) (line : Nat) :
    Traces Unrelated [.jump name] (statement ctx loop (.jump name line)) (pure ()) := by
  intro u t b t' hu hn hy
  obtain ⟨-, rfl⟩ := run_pure_ok hy
  obtain ⟨j, s, hrun, hs⟩ := Body.jumpLabel_run (hu.tidy.atLine line) name line
  obtain ⟨s', hwrite⟩ : ∃ s', write [.jump j.label] s = .ok () s' := ⟨_, rfl⟩
  have hstatement : Body.statement ctx loop (.jump name line) u.body = .ok () s' := by
    change (Body.jumpLabel name line >>= fun label => write [.jump label])
      { u.body with backend := Backend.atLine u.body.backend line } = _
    rw [run_bind_of_ok hrun, hwrite]
  obtain ⟨hnames, hsound⟩ := hu.jump hs.of_atLine hwrite
  rw [statement, run_note_ok hstatement]
  exact ⟨trivial, hnames.trans hn, hsound, sites_append _ _ _⟩

theorem label_traces (loop : Option LoopLabels) (name : String) (line line' : Nat) :
    Traces Unrelated [.label name] (statement ctx loop (.expr (.label name line') line)) (pure ()) := by
  intro u t b t' hu hn hy
  obtain ⟨-, rfl⟩ := run_pure_ok hy
  have hdefine :
      Body.statement ctx loop (.expr (.label name line') line) u.body = Body.defineLabel name line line
      { u.body with backend := Backend.atLine u.body.backend line } := rfl
  obtain ⟨j, s, hs, ⟨hd, d, s', hrun⟩ | ⟨hd, hrun⟩⟩ := Body.defineLabel_run (hu.tidy.atLine line) name line
  · -- a name that is new is not defined, so this one was there before
    have hbefore : u.body.jumps.get? name = some j := hs.before.resolve_right fun hnew => hd hnew.2
    have hlabel : .label name ∈ u.sites := (hu.listed.defined name).mpr ⟨j, hbefore, hd⟩
    rw [statement, Term.sites, run_note_error (hdefine.trans hrun)]
    intro _ hnodup
    rw [labelsOf_append] at hnodup
    exact (List.nodup_append.mp hnodup).2.2 name (mem_labelsOf.mpr hlabel) name List.mem_cons_self rfl
  · cases hmark : mark j.label line
      { s with jumps := s.jumps.insert name { j with definedAt := some line } } with
    | error d s' =>
      rw [statement, Term.sites, run_note_error (hdefine.trans (hrun.trans hmark))]
      exact fun hblames => absurd hblames (Body.mark_error hmark)
    | ok a s' =>
      obtain ⟨hnames, hsound⟩ := hu.define hs.of_atLine hd hmark
      rw [statement, Term.sites, run_note_ok (hdefine.trans (hrun.trans hmark))]
      exact ⟨trivial, hnames.trans hn, hsound, sites_append _ _ _⟩

theorem expr_traces {loop loop' : Option LoopLabels} (term : Term) (line : Nat) :
    Traces Unrelated term.sites (statement ctx loop (.expr term line))
      (Body.statement ctx loop' (Stmt.expr term line).blanked) := by
  cases hl : term.isLabel with
  | true =>
    cases term with
    | label name line' => exact label_traces loop name line line'
    | literal | name | call | list | angle | cast | unary | step | member | binary | assign
    | broken | brokenAfter =>
      cases hl
  | false =>
    have hecho : Body.Echoes Unrelated (Body.statement ctx loop (.expr term line))
        (Body.statement ctx loop' (.expr term line)) :=
      .bind (Body.atLine_echoes line line) fun _ _ _ => Body.expression_echoes hl line
    rw [Stmt.blanked, hl, statement, Term.sites_of_not_isLabel hl, note_nil]
    exact .quiet hecho

/-- Two bodies in the same loop know of it by labels of their own. -/
theorem isSome_eq (a b : α) : (some a).isSome = (some b).isSome := rfl

mutual

theorem statement_traces {loop loop' : Option LoopLabels} (hl : loop.isSome = loop'.isSome) (s : Stmt) :
    Traces Unrelated s.sites (statement ctx loop s) (Body.statement ctx loop' s.blanked) := by
  have hmap {f : LoopLabels → Label} : (loop.map f).isSome = (loop'.map f).isSome := by simpa using hl
  cases s with
  | empty => exact .quiet (.pure trivial)
  | declare ty name init line =>
    exact .quiet (.bind (Body.atLine_echoes line line) fun _ _ _ => Body.declaration_echoes ty name init line)
  | expr term line => exact expr_traces term line
  | ret result line =>
    exact .quiet (.bind (Body.atLine_echoes line line) fun _ _ _ => Body.returning_echoes result line)
  | changeState name line =>
    exact .quiet (.bind (Body.atLine_echoes line line) fun _ _ _ => Body.stateChange_echoes name line)
  | jump name line => exact jump_traces loop name line
  | breakLoop line =>
    exact .quiet (.bind (Body.atLine_echoes line line) fun _ _ _ => Body.loopJump_echoes hmap _ line)
  | continueLoop line =>
    exact .quiet (.bind (Body.atLine_echoes line line) fun _ _ _ => Body.loopJump_echoes hmap _ line)
  | broken problem =>
    have hecho : Body.Echoes Unrelated (Body.statement ctx loop (.broken problem))
        (Body.statement ctx loop' (.broken problem)) := .throw _ problem
    exact .quiet hecho
  | block body => exact .inScope (statements_traces hl body)
  | branch term body rest line =>
    refine .before (Body.atLine_echoes line line) fun _ _ _ => ?_
    refine .before (Body.armCondition_echoes .ifArm term line) fun otherwise otherwise' _ => ?_
    refine .bind (.inScope (statements_traces hl body)) fun _ _ _ => ?_
    exact conditionalTail_traces hl rfl otherwise otherwise' line rest
  | whileLoop term body line after =>
    refine .before (Body.atLine_echoes line line) fun _ _ _ => ?_
    refine .before (Body.newLabel_echoes _ _ line) fun again again' _ => ?_
    refine .before (Body.newLabel_echoes _ _ line) fun stop stop' _ => ?_
    refine .before (Body.mark_echoes again again' line line) fun _ _ _ => ?_
    refine .before (Body.condition_echoes term line) fun _ _ _ => ?_
    refine .before (Body.write_echoes _ _) fun _ _ _ => ?_
    refine .after (.inScope (statements_traces (isSome_eq _ _) body)) fun _ _ _ => ?_
    refine .before (Body.atLine_echoes after after) fun _ _ _ =>
      .before (Body.write_echoes _ _) fun _ _ _ => ?_
    exact .quiet (Body.mark_echoes stop stop' after after)
  | forLoop init test step body line after =>
    refine .before (Body.atLine_echoes line line) fun _ _ _ =>
      .before (Body.effects_echoes init) fun _ _ _ => ?_
    refine .before (Body.newLabel_echoes _ _ line) fun top top' _ => ?_
    refine .before (Body.newLabel_echoes _ _ line) fun again again' _ => ?_
    refine .before (Body.newLabel_echoes _ _ line) fun stop stop' _ => ?_
    refine .before (Body.mark_echoes top top' line line) fun _ _ _ => ?_
    -- what follows the test, whether there is one or not
    have hturn := Traces.after (.inScope (statements_traces (isSome_eq ⟨again, stop⟩ ⟨again', stop'⟩) body))
      fun _ _ _ => .before (Body.atLine_echoes after after) fun _ _ _ =>
        .before (Body.mark_echoes again again' after after) fun _ _ _ =>
          .before (@Body.effects_echoes ctx step)
          fun _ _ _ => .before (Body.write_echoes [.jump top] [.jump top']) fun _ _ _ =>
            .quiet (Body.mark_echoes stop stop' after after)
    cases test with
    | none => exact hturn
    | some term =>
      refine .before (Body.condition_echoes term line) fun _ _ _ => ?_
      exact .before (Body.write_echoes _ _) fun _ _ _ => hturn
  | doLoop body term line test =>
    refine .before (Body.atLine_echoes line line) fun _ _ _ => ?_
    refine .before (Body.newLabel_echoes _ _ line) fun top top' _ => ?_
    refine .before (Body.newLabel_echoes _ _ line) fun again again' _ => ?_
    refine .before (Body.newLabel_echoes _ _ line) fun stop stop' _ => ?_
    refine .before (Body.mark_echoes top top' line line) fun _ _ _ => ?_
    refine .after (.inScope (statements_traces (isSome_eq _ _) body)) fun _ _ _ => ?_
    refine .before (Body.atLine_echoes test test) fun _ _ _ => ?_
    refine .before (Body.mark_echoes again again' test test) fun _ _ _ => ?_
    refine .before (Body.condition_echoes term test) fun _ _ _ =>
      .before (Body.write_echoes _ _) fun _ _ _ => ?_
    exact .quiet (Body.mark_echoes stop stop' test test)
termination_by structural s

theorem statements_traces {loop loop' : Option LoopLabels} (hl : loop.isSome = loop'.isSome)
    (body : List Stmt) :
    Traces Unrelated (Stmt.allSites body) (statements ctx loop body)
      (Body.statements ctx loop' (Stmt.allBlanked body)) := by
  cases body with
  | nil =>
    intro u t b t' hu hn hy
    obtain ⟨-, rfl⟩ := run_pure_ok hy
    exact ⟨trivial, hn, hu, (List.append_nil _).symm⟩
  | cons s rest => exact .bind (statement_traces hl s) fun _ _ _ => statements_traces hl rest
termination_by structural body

theorem conditionalTail_traces {loop loop' : Option LoopLabels} (hl : loop.isSome = loop'.isSome)
    {meeting meeting' : Option Label} (hm : meeting.isSome = meeting'.isSome) (otherwise otherwise' : Label)
    (start : Nat) (tail : Tail) :
    Traces Unrelated tail.sites (conditionalTail ctx loop meeting otherwise start tail)
      (Body.conditionalTail ctx loop' meeting' otherwise' start tail.blanked) := by
  cases tail with
  | done after =>
    refine .before (Body.atLine_echoes after after) fun _ _ _ => ?_
    refine .before (Body.mark_echoes otherwise otherwise' after after) fun _ _ _ => ?_
    exact .quiet (Body.markKnown_echoes hm after)
  | elseIf term body rest line =>
    refine .before (Body.nextArm_echoes hm otherwise otherwise' start line) fun label label' _ => ?_
    refine .before (Body.armCondition_echoes .elseIfArm term line) fun next next' _ => ?_
    refine .bind (.inScope (statements_traces hl body)) fun _ _ _ => ?_
    exact conditionalTail_traces hl (isSome_eq _ _) next next' line rest
  | elseArm body line after =>
    refine .before (Body.nextArm_echoes hm otherwise otherwise' start line) fun label label' _ => ?_
    refine .after (.inScope (statements_traces hl body)) fun _ _ _ => ?_
    refine .before (Body.atLine_echoes after after) fun _ _ _ => ?_
    exact .quiet (Body.mark_echoes label label' after after)
termination_by structural tail

end

variable {names : Names} {params : List Param} {opening stop : Nat} {tokens blanks : List Token}

/-- What comes before the statements is the same for all tokens, and sound. -/
theorem compile_opening {locals : List Param} {s : BodyState Assembly}
    (h : Body.compileTree ctx params opening stop blanks (Body.start names .empty) = .ok locals s) :
    ∃ t t', Sound ⟨t, []⟩ ∧ Body.statements ctx none (Stmt.ofTokens opening stop blanks) t = .ok () t' ∧
      ∀ tokens, compile ctx params opening stop tokens ⟨Body.start names .empty, []⟩ =
        (do
          statements ctx none (Stmt.ofTokens opening stop tokens)
          quietly (Body.finish ctx stop)
          return (← get).body.names.locals) ⟨t, []⟩ := by
  obtain ⟨s₂, s₃, hrun, h₃, -⟩ := Body.compileTree_ok h
  let s₁ : BodyState Assembly := ⟨names.beginBody.openScope, .empty, .empty, .empty⟩
  have hs₁ : s₁.Tidy := by
    constructor
    · intro l p hb
      cases hb
    · intro l r hr
      cases hr
  -- the parameters are their own echo
  have hecho := Body.declareParams_echoes opening params s₁ s₁ _ s₂ hs₁ rfl hrun
  change Body.declareParams opening params s₁ = .ok () s₂ at hrun
  rw [hrun] at hecho
  obtain ⟨-, -, hgrows, hj⟩ := hecho
  refine ⟨s₂, s₃, Sound.start hgrows.tidy hj, h₃, ?_⟩
  intro tokens
  have hquiet : quietly (Body.declareParams opening params) ⟨s₁, []⟩ = .ok () ⟨s₂, []⟩ := quietly_ok hrun
  change (quietly (Body.declareParams opening params) >>= _) ⟨s₁, []⟩ = _
  rw [run_bind_of_ok hquiet]

/-- A body that is accepted with empty statements for its jumps and labels is accepted if they are
resolvable, but for defects. -/
theorem compile_cases
    (hblank : Stmt.ofTokens opening stop blanks = Stmt.allBlanked (Stmt.ofTokens opening stop tokens))
    {locals : List Param} {s : BodyState Assembly}
    (h : Body.compileTree ctx params opening stop blanks (Body.start names .empty) = .ok locals s) :
    (∃ locals u, compile ctx params opening stop tokens ⟨Body.start names .empty, []⟩ =
      .ok locals u ∧ u.Sound ∧
      u.sites = Stmt.allSites (Stmt.ofTokens opening stop tokens) ∧ Resolvable u.sites ∧
      ∀ (k : Chunk) (resolve : Label → Except Label Nat), k.Completes resolve u.body →
        ∀ name q, ⟨.label name, q⟩ ∈ u.marks → q < k.entries.size) ∨
    ∃ d u, compile ctx params opening stop tokens ⟨Body.start names .empty, []⟩ = .error d u ∧
      (d.BlamesScript → ¬ Resolvable (Stmt.allSites (Stmt.ofTokens opening stop tokens))) := by
  obtain ⟨t, t', hstart, hblanks, hcompile⟩ := compile_opening h
  rw [hblank] at hblanks
  have htraces := statements_traces rfl (Stmt.ofTokens opening stop tokens) ⟨t, []⟩ t () t' hstart rfl hblanks
  cases hrun : statements ctx none (Stmt.ofTokens opening stop tokens) ⟨t, []⟩ with
  | error d u =>
    -- only a label that comes twice stops the statements
    rw [hrun] at htraces
    refine .inr ⟨d, u, ?_, fun hd hres => htraces hd hres.once⟩
    rw [hcompile, run_bind_of_error hrun]
  | ok a u =>
    rw [hrun] at htraces
    obtain ⟨-, -, hu, hsites⟩ := htraces
    have hsites : u.sites = Stmt.allSites (Stmt.ofTokens opening stop tokens) := hsites
    have hdefined := hu.listed.all_defined_iff hu.placed.known
    -- the statements are done, so a name without its label is all that can be wrong with the script
    cases hfind : u.body.jumps.entries.find? fun e => e.2.definedAt.isNone with
    | some e =>
      obtain ⟨d, hfinish⟩ := Body.finish_undefined ctx stop hfind
      refine .inr ⟨d, u, ?_, ?_⟩
      · rw [hcompile, run_bind_of_ok hrun, run_bind_of_error (quietly_error hfinish)]
      · intro _ hres
        have hnone := hdefined.mpr (hsites ▸ hres.defined)
        rw [hfind] at hnone
        cases hnone
    | none =>
      have hres : Resolvable u.sites := ⟨hu.listed.distinct, hdefined.mp hfind⟩
      obtain ⟨s', hfinish, hsound, hsize⟩ | ⟨d, s', hfinish, hd⟩ := hu.finish ctx stop hfind
      · refine .inl ⟨s'.names.locals, ⟨s', u.marks⟩, ?_, hsound, hsites, hres, ?_⟩
        · rw [hcompile, run_bind_of_ok hrun, run_bind_of_ok (quietly_ok hfinish)]
          rfl
        · intro k resolve hk name q hq
          obtain ⟨j, -, -, hle⟩ := hu.placed.label name q hq
          exact hle.trans_lt (hsize k resolve hk)
      · refine .inr ⟨d, ⟨s', u.marks⟩, ?_, fun hblames => absurd hblames hd⟩
        rw [hcompile, run_bind_of_ok hrun, run_bind_of_error (quietly_error hfinish)]

end Survey

namespace Script

variable {ctx : BodyContext} {names : Names} {params : List Param} {body : Block}

theorem surveyed_of_ok {locals : List Param} {u : Survey}
    (h : Survey.compile ctx params body.openLine body.closeLine body.tokens ⟨Body.start names .empty, []⟩ =
      .ok locals u) :
    (surveyed ctx names params body).2 = u.marks ∧ ∃ k, u.body.backend.finish locals = .ok k ∧
      bodyCode .chunks ctx names params body = .ok k := by
  have hbody :
      Body.compileTree ctx params body.openLine body.closeLine body.tokens (Body.start names .empty) =
      .ok locals u.body := by
    have hcarries :
        Body.compileTree ctx params body.openLine body.closeLine body.tokens
          (Body.start names Assembly.empty) = _ :=
      Survey.compile_carries params body.openLine body.closeLine body.tokens ⟨Body.start names .empty, []⟩
    rw [h] at hcarries
    exact hcarries
  obtain ⟨k, hk, hcode⟩ := bodyCode_of_body hbody
  refine ⟨?_, k, hk, hcode⟩
  unfold surveyed
  dsimp only [EStateM.run]
  rw [h]

theorem surveyed_of_error {d : Diagnostic} {u : Survey}
    (h : Survey.compile ctx params body.openLine body.closeLine body.tokens ⟨Body.start names .empty,
      []⟩ = .error d u) :
    bodyCode .chunks ctx names params body = .error d := by
  rw [← surveyed_fst]
  unfold surveyed
  dsimp only [EStateM.run]
  rw [h]

/-- Jumps and labels are resolved just if no label comes twice and every jump has its label, and then
every jump leads to the instruction after its label. -/
theorem bodyCode_resolves (ctx : BodyContext) (names : Names) (params : List Param) {tree : List Stmt}
    (htree : Stmt.Spelled body.closeLine body.tokens tree) :
    (∃ blanks, Stmt.Spelled body.closeLine blanks (Stmt.allBlanked tree)) ∧
      ∀ blanks plain, Stmt.Spelled body.closeLine blanks (Stmt.allBlanked tree) →
        bodyCode .chunks ctx names params { body with tokens := blanks } = .ok plain →
        ((∃ k, bodyCode .chunks ctx names params body = .ok k) ↔ Resolvable (Stmt.allSites tree)) ∧
        (surveyed ctx names params body).1 = bodyCode .chunks ctx names params body ∧
        ∀ k, bodyCode .chunks ctx names params body = .ok k →
          (surveyed ctx names params body).2.map Mark.site = Stmt.allSites tree ∧
          ∀ name p, ⟨.jump name, p⟩ ∈ (surveyed ctx names params body).2 →
            ∃ q, ⟨.label name, q⟩ ∈ (surveyed ctx names params body).2 ∧ q < k.entries.size ∧
              k.Has p (.jump q) := by
  refine ⟨htree.blanked, ?_⟩
  intro blanks plain hblanks hplain
  obtain ⟨locals, s, hs, -⟩ := bodyCode_ok hplain
  have hofTokens : Stmt.ofTokens body.openLine body.closeLine body.tokens = tree := htree.ofTokens
  have hblank : Stmt.ofTokens body.openLine body.closeLine blanks =
      Stmt.allBlanked (Stmt.ofTokens body.openLine body.closeLine body.tokens) := by
    rw [hofTokens]
    exact hblanks.ofTokens
  have hcases := Survey.compile_cases hblank hs
  rw [hofTokens] at hcases
  obtain ⟨locals', u, hcompile, hu, hsites, hres, hsize⟩ | ⟨d, u, hcompile, hnot⟩ := hcases
  · obtain ⟨hmarks, k, hk, hcode⟩ := surveyed_of_ok hcompile
    refine ⟨iff_of_true ⟨k, hcode⟩ (hsites ▸ hres), surveyed_fst ctx names params body, ?_⟩
    intro k' hk'
    rw [hcode] at hk'
    cases hk'
    rw [hmarks]
    refine ⟨hsites, ?_⟩
    intro name p hp
    obtain ⟨hcompletes, -⟩ := Assembly.finish_completes hk
    obtain ⟨q, hq, hjump⟩ := hu.jump_target hres hcompletes hp
    exact ⟨q, hq, hsize k _ hcompletes name q hq, hjump⟩
  · have herror : bodyCode .chunks ctx names params body = .error d := surveyed_of_error hcompile
    have hblames : d.BlamesScript := by
      have hyields : Yields (bodyCode .chunks ctx names params body) (Chunk.Within .everything) :=
        bodyCode_yields (Vocabulary.everything_covers _ _) (Vocabulary.everything_admits _)
      exact hyields.of_error herror
    refine ⟨iff_of_false ?_ (hnot hblames), surveyed_fst ctx names params body, ?_⟩
    · rintro ⟨k, hk⟩
      rw [herror] at hk
      cases hk
    · intro k hk
      rw [herror] at hk
      cases hk

end Script

namespace Sample

def leapsSource : String :=
  "jump b; @a; if (n > 0) \x7b n--; jump a; \x7d else while (n < 3) \x7b @b; n++; jump c; \x7d @c; \x7d"

def leaps : Block := ⟨(tokenize [] leapsSource).toOption.getD [], 1, 1, true⟩

theorem leaps_sites : Stmt.allUnbroken (Stmt.ofTokens 1 1 leaps.tokens) = true ∧
    Stmt.allSites (Stmt.ofTokens 1 1 leaps.tokens) =
      [.jump "b", .label "a", .jump "a", .label "b", .jump "c", .label "c"] := by
  have hs : leapsSource.toList = _ := String.toList_ofList
  rw [leaps, tokenize_eq_charTokens hs]
  decide +kernel

theorem leaps_blanked {blanks : List Token}
    (h : Stmt.ofTokens leaps.openLine leaps.closeLine blanks = Stmt.allBlanked
      (Stmt.ofTokens 1 1 leaps.tokens)) :
    ∃ k, Script.bodyCode .chunks bodyContext bodyNames [⟨"n", .integer⟩]
      { leaps with tokens := blanks } = .ok k := by
  let b : Block := { leaps with tokens := blanks }
  let work : BodyM Assembly _ :=
    Body.compileTree bodyContext [⟨"n", .integer⟩] b.openLine b.closeLine b.tokens
  have hok : (work.run' (Body.start bodyNames Assembly.empty)).isSome = true := by
    have hs : leapsSource.toList = _ := String.toList_ofList
    simp only [work, b, Body.compileTree]
    rw [h, leaps, tokenize_eq_charTokens hs]
    decide +kernel
  cases hrun : work (Body.start bodyNames Assembly.empty) with
  | ok locals s =>
    obtain ⟨k, -, hk⟩ := Script.bodyCode_of_body hrun
    exact ⟨k, hk⟩
  | error d s =>
    delta EStateM.run' EStateM.run at hok
    rw [hrun] at hok
    cases hok

end Sample

theorem Script.leaps_resolves :
    ∃ tree blanks plain k,
    Stmt.Spelled Sample.leaps.closeLine Sample.leaps.tokens tree ∧
      Stmt.Spelled Sample.leaps.closeLine blanks (Stmt.allBlanked tree) ∧
      bodyCode .chunks Sample.bodyContext Sample.bodyNames [⟨"n", .integer⟩]
        { Sample.leaps with tokens := blanks } =
        .ok plain ∧
      bodyCode .chunks Sample.bodyContext Sample.bodyNames [⟨"n", .integer⟩] Sample.leaps = .ok k ∧
      ∃ p q, k.Has p (.jump q) ∧
        ⟨.jump "b", p⟩ ∈ (surveyed Sample.bodyContext Sample.bodyNames [⟨"n", .integer⟩] Sample.leaps).2 ∧
        ⟨.label "b", q⟩ ∈ (surveyed Sample.bodyContext Sample.bodyNames [⟨"n", .integer⟩]
          Sample.leaps).2 := by
  obtain ⟨hunbroken, hsites⟩ := Sample.leaps_sites
  have htree :
      Stmt.Spelled Sample.leaps.closeLine Sample.leaps.tokens (Stmt.ofTokens 1 1 Sample.leaps.tokens) :=
    Stmt.ofTokens_spelled hunbroken
  obtain ⟨⟨blanks, hblanks⟩, hresolves⟩ :=
    bodyCode_resolves Sample.bodyContext Sample.bodyNames [⟨"n", .integer⟩] htree
  obtain ⟨plain, hplain⟩ := Sample.leaps_blanked hblanks.ofTokens
  obtain ⟨haccepted, -, hcode⟩ := hresolves blanks plain hblanks hplain
  have hresolvable : Resolvable (Stmt.allSites (Stmt.ofTokens 1 1 Sample.leaps.tokens)) := by
    rw [hsites]
    exact ⟨by decide, by simp⟩
  obtain ⟨k, hk⟩ := haccepted.mpr hresolvable
  obtain ⟨hmarks, htargets⟩ := hcode k hk
  have hjump : .jump "b" ∈
      (surveyed Sample.bodyContext Sample.bodyNames [⟨"n", .integer⟩] Sample.leaps).2.map Mark.site := by
    rw [hmarks, hsites]
    exact List.mem_cons_self
  obtain ⟨⟨site, p⟩, hp, rfl⟩ := List.mem_map.mp hjump
  obtain ⟨q, hq, -, hhas⟩ := htargets "b" p hp
  exact ⟨_, blanks, plain, k, htree, hblanks, hplain, hk, p, q, hhas, hp, hq⟩

end WorldScript
