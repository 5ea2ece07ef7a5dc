import WorldScript.Machine
import WorldScript.Proofs.Body.Statements
import WorldScript.Proofs.Script.Typing
import WorldScript.Proofs.Stmt.Reading

/-! # Bodies do what their statements say

The finished code of a body without jumps is laid out for the action of its statements and ends with a
return.  So a run of that code leaves behind what carrying out the action leaves behind.
-/

namespace WorldScript

theorem Assembly.finish_completes {s : BodyState Assembly} {locals : List Param} {k : Chunk}
    (h : s.backend.finish locals = .ok k) : k.Completes s.backend.target s ∧ k.locals = locals := by
  obtain ⟨entries, hentries, hk⟩ := bind_ok.mp h
  cases hk
  obtain ⟨hlen, hget⟩ := mapM_getElem? hentries
  refine ⟨⟨?_, ?_⟩, rfl⟩
  · intro i instr hi
    obtain ⟨d, hd, rfl⟩ : ∃ d, s.backend.drafts.toList[i]? = some d ∧ d.instr = instr := by
      simpa [BodyState.code] using hi
    have hlt : i < entries.length := hlen ▸ (List.getElem?_eq_some_iff.mp hd).1
    obtain ⟨d', hd', hf⟩ := hget i entries[i] (List.getElem?_eq_getElem hlt)
    obtain rfl : d = d' := Option.some.inj (hd.symm.trans hd')
    obtain ⟨j, hj, he⟩ := map_ok.mp hf
    refine ⟨entries[i], by simp [hlt], ?_⟩
    rw [hj, ← he]
  · intro l p hb
    have hb : s.backend.targets[l.id]? = some (some p) := hb
    simp [Assembly.target, hb]

namespace Body

open BodyM

variable {w : World} {ctx : BodyContext} {s t : BodyState Assembly} {a : Unit}

theorem declareParams_leads {line : Nat} {params : List Param} (hs : s.Ready w)
    (h : declareParams line params s = .ok a t) :
    s.Leads w t ∧ t.code = s.code ∧ s.names.declareAll? line params = some t.names := by
  induction params generalizing s with
  | nil =>
    obtain ⟨-, rfl⟩ := run_pure_ok h
    exact ⟨.refl hs, rfl, rfl⟩
  | cons p rest ih =>
    obtain ⟨slot, u, hu, h⟩ := run_bind_ok h
    obtain ⟨hl, hc, hd⟩ := declare_leads hs hu
    obtain ⟨hl', hc', hd'⟩ := ih hl.ready h
    refine ⟨hl.trans hl', hc'.trans hc, ?_⟩
    simp [Names.declareAll?, hd, hd', Except.toOption]

theorem close_leads {stop : Nat} {code : List (Instr Label)} (hs : s.Ready w)
    (h : close stop code s = .ok a t) :
    s.Leads w t ∧ t.code = s.code ++ code ∧ t.names.locals = s.names.locals := by
  obtain ⟨_, s₁, h₁, h⟩ := run_bind_ok h
  have hw₁ : s.Writes w [] s₁ := atLine_writes hs h₁
  obtain ⟨_, s₂, h₂, h⟩ := run_bind_ok h
  have hw₂ : s₁.Writes w code s₂ := write_writes hw₁.leads.ready h₂
  have hw : s.Writes w code s₂ := hw₁.trans hw₂
  obtain ⟨_, s₃, h₃, h⟩ := run_bind_ok h
  obtain ⟨hl₃, hc₃, hn₃⟩ := changeNames_leads (f := Names.closeScope) (fun _ => rfl) hw.leads.ready h₃
  obtain ⟨_, s₄, h₄, h⟩ := run_bind_ok h
  cases h₄
  obtain ⟨-, rfl⟩ := lift_ok h
  exact ⟨hw.leads.trans hl₃, hc₃.trans hw.code, by rw [hn₃, hw.names]; rfl⟩

/-- Who comes to the end of a body finds a return there. -/
theorem finish_returns {stop : Nat} (hs : s.Ready w) (h : finish ctx stop s = .ok a t) :
    s.Leads w t ∧ t.names.locals = s.names.locals ∧
      ∀ (k : Chunk) (resolve : Label → Except Label Nat), k.Completes resolve t →
        k.ReturnsAt ctx.kind.returns s.position := by
  obtain ⟨hl, hc, hn⟩ := close_leads hs (finish_closes h)
  refine ⟨hl, hn, fun k resolve hcomp => ?_⟩
  have hholds := hcomp.written hc
  cases hk : ctx.kind.returns with
  | none =>
    rw [hk] at hholds
    exact hholds.has rfl
  | some ty =>
    rw [hk] at hholds
    have hh : k.Holds resolve s.position ([.push ty.defaultValue] ++ [.retValue]) := hholds
    exact ⟨hh.left.has rfl, hh.right.has rfl⟩

/-- A body without jumps has a routine, and its finished code is laid out for it. -/
theorem compileTree_lays (hn : Numbered ctx.registry.functions) (hreg : w.registry = ctx.registry)
    {names : Names} (hf : w.program.functions.map ScriptFunction.signature = names.functions)
    {params locals : List Param} {start stop : Nat} {tokens : List Token}
    (hj : Stmt.allJumpFree (Stmt.ofTokens start stop tokens) = true)
    (h : compileTree ctx params start stop tokens (Body.start names .empty) = .ok locals t) :
    ∃ action, Routine.ofStmts? ctx names params start (Stmt.ofTokens start stop tokens) =
        some ⟨locals, ctx.kind.returns, action⟩ ∧
      ∀ (k : Chunk) (resolve : Label → Except Label Nat), k.Completes resolve t →
        ∃ q, action.Laid w k ⟨q, q⟩ 0 q ∧ k.ReturnsAt ctx.kind.returns q := by
  obtain ⟨s₂, s₃, h₂, h₃, h₄, rfl⟩ := compileTree_ok h
  have hs : BodyState.Ready w ⟨names.beginBody.openScope, .empty, .empty, .empty⟩ := by
    refine ⟨?_, ?_, hf.symm⟩
    · intro l p hb
      cases hb
    · intro l r hr
      cases hr
  obtain ⟨hl₂, hc₂, hparams⟩ := declareParams_leads hs h₂
  obtain ⟨hl₃, action, hread, hlaid⟩ := statements_lays hn hreg none _ hj s₂ _ s₃ hl₂.ready h₃
  obtain ⟨hl₄, hlocals, hreturns⟩ := finish_returns hl₃.ready h₄
  refine ⟨action, ?_, ?_⟩
  · have hp : names.beginBody.openScope.declareAll? start params = some s₂.names := hparams
    simp [Routine.ofStmts?, hp, hread, hlocals]
  · intro k resolve hk
    have hp : s₂.position = 0 := congrArg List.length hc₂
    refine ⟨s₃.position, ?_, hreturns k resolve hk⟩
    rw [← hp]
    exact hlaid k resolve _ (hk.before hl₄) nofun

end Body

def Exit.course (exit : Exit) (G : Frame) : Course := fun n => ⟨.ok ⟨exit, G.locals⟩, G.store, n⟩

section Shown

variable {fuel n : Nat} {whole : Course} {r : EStateM.Result Halt Frame Exit}

theorem Follows.shown {result : Except Fault Ending × Store} (h : Follows fuel whole Exit.course r)
    (hr : Routine.shown? r = some result) : ∃ cost, ∀ n, if n < cost then
      (whole n).outcome = .error .instructionLimit else ((whole n).outcome, (whole n).store) = result := by
  have hcosts : ∃ cost rest, Costs cost whole rest ∧ ∀ n, ((rest n).outcome, (rest n).store) = result := by
    cases r with
    | ok exit G =>
      obtain ⟨cost, -, hc⟩ := h
      cases hr
      exact ⟨cost, _, hc, fun _ => rfl⟩
    | error halt G =>
      cases halt with
      | fault f =>
        obtain ⟨cost, hc⟩ := h
        cases hr
        exact ⟨cost, _, hc, fun _ => rfl⟩
      | exhausted => cases hr
      | stuck => cases hr
  obtain ⟨cost, rest, hc, hrest⟩ := hcosts
  refine ⟨cost, fun n => ?_⟩
  by_cases hn : n < cost
  · rw [if_pos hn]
    exact hc.short n hn
  · have hall : whole n = rest (n - cost) := by
      rw [← hc.enough, Nat.sub_add_cancel (Nat.le_of_not_lt hn)]
    rw [if_neg hn, hall]
    exact hrest _

theorem Follows.shown_of_unlimited (h : Follows (n + 1) whole Exit.course r)
    (hn : (whole n).outcome ≠ .error .instructionLimit) :
    Routine.shown? r = some ((whole n).outcome, (whole n).store) := by
  cases hr : Routine.shown? r with
  | none =>
    cases r with
    | ok exit G => cases hr
    | error halt G =>
      cases halt with
      | fault f => cases hr
      | exhausted => exact absurd (h n (Nat.lt_succ_self n)) hn
      | stuck => cases h
  | some result =>
    obtain ⟨cost, hcost⟩ := h.shown hr
    have hall := hcost n
    split at hall
    · exact absurd hall hn
    · rw [hall]

end Shown

def Machine.leaves : EStateM.Result Fault Machine Ending → Except Fault Ending × Store
  | .ok ending m => (.ok ending, m.store)
  | .error f m => (.error f, m.store)

theorem Machine.leaves_of_error {w : World} {k : Chunk} {args : List Value} {f : Fault} (m : Machine)
    (h : Activation.bind k.locals args = .error f) : leaves (runChunk w k args m) = (.error f, m.store) := by
  have he : Activation.enter k args = .error f := by
    rw [Activation.enter, h]
    rfl
  rw [runChunk, run_get_bind, he]
  rfl

theorem Machine.leaves_of_ok {w : World} {k : Chunk} {args locals : List Value} (m : Machine)
    (h : Activation.bind k.locals args = .ok locals) : leaves (runChunk w k args m) =
      (((Frame.config ⟨m.store, locals.toArray⟩ k 0 [] []).course w m.budget).outcome,
        ((Frame.config ⟨m.store, locals.toArray⟩ k 0 [] []).course w m.budget).store) := by
  have he : Activation.enter k args = .ok ⟨k, 0, [], locals.toArray⟩ := by
    rw [Activation.enter, h]
    rfl
  rw [runChunk, run_get_bind, he]
  dsimp only
  rw [run_set_bind]
  cases ho : (run w m.budget ⟨m.store, ⟨k, 0, [], locals.toArray⟩, []⟩).outcome with
  | ok ending => exact Prod.ext ho.symm rfl
  | error f => exact Prod.ext ho.symm rfl

/-- A chunk carries out a routine.  Under any callers its code does what the routine does; a run that
stays under the instruction limit leaves behind what the routine leaves behind; and if the routine comes
to an end, so does every run whose budget suffices. -/
structure Chunk.CarriesOut (w : World) (k : Chunk) (r : Routine) : Prop where
  locals : k.locals = r.locals
  called : ∀ (fuel : Nat) (cs : List Pending) (F : Frame),
    Follows fuel ((F.config k 0 [] cs).course w) (fun exit G => ((G.config k 0 [] cs).leave exit).course w)
      (r.action.execBody w fuel cs.length r.returns F)
  run_outcome : ∀ (args : List Value) (m : Machine),
    (Machine.leaves (Machine.runChunk w k args m)).1 ≠ .error .instructionLimit →
      r.outcome? w (m.budget + 1) args m.store = some (Machine.leaves (Machine.runChunk w k args m))
  outcome_run : ∀ (fuel : Nat) (args : List Value) (store : Store) (result : Except Fault Ending × Store),
    r.outcome? w fuel args store = some result → ∃ cost, ∀ m : Machine, m.store = store →
      if m.budget < cost then (Machine.leaves (Machine.runChunk w k args m)).1 = .error .instructionLimit
      else Machine.leaves (Machine.runChunk w k args m) = result

theorem Action.Laid.carriesOut {w : World} {k : Chunk} {r : Routine} {q : Nat}
    (h : r.action.Laid w k ⟨q, q⟩ 0 q) (hr : k.ReturnsAt r.returns q) (hl : k.locals = r.locals) :
    k.CarriesOut w r := by
  have hcalled : ∀ (fuel : Nat) (cs : List Pending) (F : Frame), Follows fuel ((F.config k 0 [] cs).course w)
      (fun exit G => ((G.config k 0 [] cs).leave exit).course w)
      (r.action.execBody w fuel cs.length r.returns F) := by
    intro fuel cs F
    have hleave : ∀ exit (G : Frame), (G.config k q [] cs).leave exit = (G.config k 0 [] cs).leave exit := by
      intro exit G
      cases cs with
      | nil => rfl
      | cons p rest => cases exit <;> rfl
    have hbody := h.execBody_follows hr fuel [] cs F
    simp only [hleave] at hbody
    exact hbody
  refine ⟨hl, hcalled, ?_, ?_⟩
  · intro args m hm
    unfold Routine.outcome?
    rw [← hl]
    cases hb : Activation.bind k.locals args with
    | error f => rw [Machine.leaves_of_error m hb]
    | ok locals =>
      rw [Machine.leaves_of_ok m hb] at hm ⊢
      exact Follows.shown_of_unlimited (hcalled (m.budget + 1) [] ⟨m.store, locals.toArray⟩) hm
  · intro fuel args store result hresult
    unfold Routine.outcome? at hresult
    rw [← hl] at hresult
    cases hb : Activation.bind k.locals args with
    | error f =>
      refine ⟨0, ?_⟩
      rintro m rfl
      rw [hb] at hresult
      rw [if_neg (Nat.not_lt_zero _), Machine.leaves_of_error m hb]
      exact Option.some.inj hresult
    | ok locals =>
      rw [hb] at hresult
      obtain ⟨cost, hcost⟩ := Follows.shown (hcalled fuel [] ⟨store, locals.toArray⟩) hresult
      refine ⟨cost, ?_⟩
      rintro m rfl
      rw [Machine.leaves_of_ok m hb]
      exact hcost m.budget

/-- An accepted body without jumps spells just one list of statements, and its code carries out the
routine that they stand for. -/
theorem Script.bodyCode_carriesOut {ctx : BodyContext} {w : World} (hr : ctx.registry.Built)
    (hw : w.registry = ctx.registry) {names : Names}
    (hf : w.program.functions.map ScriptFunction.signature = names.functions) {params : List Param}
    {body : Block} (hj : Stmt.allJumpFree (Stmt.ofTokens body.openLine body.closeLine body.tokens) = true)
    {k : Chunk} (h : Script.bodyCode .chunks ctx names params body = .ok k) :
    ∃ tree routine, Stmt.Spelled body.closeLine body.tokens tree ∧
      (∀ other, Stmt.Spelled body.closeLine body.tokens other → other = tree) ∧
      Routine.ofStmts? ctx names params body.openLine tree = some routine ∧ k.CarriesOut w routine := by
  obtain ⟨locals, s, hs, hk⟩ := bodyCode_ok h
  obtain ⟨hcomp, hl⟩ := Assembly.finish_completes hk
  obtain ⟨action, hread, hlaid⟩ := Body.compileTree_lays hr.numbered hw hf hj hs
  obtain ⟨q, hq, hret⟩ := hlaid k s.backend.target hcomp
  have hunbroken : Stmt.allUnbroken (Stmt.ofTokens body.openLine body.closeLine body.tokens) = true := by
    obtain ⟨_, -, hread⟩ := Option.bind_eq_some_iff.mp hread
    obtain ⟨_, hactions, -⟩ := Option.bind_eq_some_iff.mp hread
    exact Stmt.allUnbroken_of_actions? _ hactions
  refine ⟨_, _, Stmt.ofTokens_spelled hunbroken, ?_, hread, Action.Laid.carriesOut hq hret hl⟩
  intro other hother
  exact hother.ofTokens.symm

namespace Sample

/-- Loops without braces, and an `else` that belongs to the nearest `if`. -/
def bodySource : String :=
  "do while (n > 3) if (n > 5) n = 0; else if (n == 4) break; else total += n--; while (++n < 0); \x7d"

def body : Block := ⟨(tokenize [] bodySource).toOption.getD [], 1, 1, true⟩

def bodyContext : BodyContext := ⟨registry, visibility, .function (some .integer)⟩

def bodyNames : Names := ⟨[⟨"total", .integer⟩], [], [], 1, [], []⟩

theorem body_jumpFree : Stmt.allJumpFree (Stmt.ofTokens body.openLine body.closeLine body.tokens) = true := by
  have hs : bodySource.toList = _ := String.toList_ofList
  rw [body, tokenize_eq_charTokens hs]
  decide +kernel

theorem body_compiles :
    ∃ k, Script.bodyCode .chunks bodyContext bodyNames [⟨"n", .integer⟩] body = .ok k := by
  have hs : bodySource.toList = _ := String.toList_ofList
  rw [body, tokenize_eq_charTokens hs]
  exact ok_of_isOk (by decide +kernel)

end Sample

theorem Script.sample_carriesOut : ∃ k tree routine,
    Script.bodyCode .chunks Sample.bodyContext Sample.bodyNames [⟨"n", .integer⟩] Sample.body = .ok k ∧
      Stmt.Spelled Sample.body.closeLine Sample.body.tokens tree ∧
      Routine.ofStmts? Sample.bodyContext Sample.bodyNames [⟨"n", .integer⟩] Sample.body.openLine tree =
        some routine ∧
      k.CarriesOut ⟨⟨[], [], []⟩, Sample.registry⟩ routine := by
  obtain ⟨k, hk⟩ := Sample.body_compiles
  obtain ⟨tree, routine, htree, -, hroutine, hcarries⟩ :=
    bodyCode_carriesOut (w := ⟨⟨[], [], []⟩, Sample.registry⟩) Sample.registry_built rfl rfl
      Sample.body_jumpFree hk
  exact ⟨k, tree, routine, hk, htree, hroutine, hcarries⟩

end WorldScript
