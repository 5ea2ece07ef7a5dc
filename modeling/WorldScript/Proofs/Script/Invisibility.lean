import WorldScript.Proofs.Script.Sight

/-! # What may not be seen does not matter

Registries that show a script the same members in the same order make for the same compilation.  What else
they hold may shift the numbers of functions, and then calls name their functions by the other numbers.
-/

namespace WorldScript

variable {ρ : Nat → Nat}

def Draft.renamed (ρ : Nat → Nat) (d : Draft) : Draft := ⟨d.instr.renamed ρ, d.line⟩

def Assembly.renamed (ρ : Nat → Nat) (a : Assembly) : Assembly :=
  { a with drafts := a.drafts.map (Draft.renamed ρ) }

def Entry.renamed (ρ : Nat → Nat) (e : Entry) : Entry := ⟨e.instr.renamed ρ, e.line⟩

def Chunk.renamed (ρ : Nat → Nat) (c : Chunk) : Chunk := { c with entries := c.entries.map (Entry.renamed ρ) }

def CallSite.renamed (ρ : Nat → Nat) (c : CallSite) : CallSite := { c with function := ρ c.function }

theorem Assembly.renamed_respects : Backend.Respects ρ (Assembly.renamed ρ) where
  newLabel _ := rfl
  place a l := by simp [Backend.place, Assembly.place, renamed]
  write a i := by simp [Backend.write, Assembly.write, renamed, Draft.renamed]
  atLine _ _ := rfl

theorem Generator.chunks_start : Generator.chunks.start = Generator.chunks.start.renamed ρ := by
  simp [Generator.chunks, Assembly.renamed, Assembly.empty]

theorem Instr.retarget_renamed {σ τ ε : Type} (f : σ → Except ε τ) (i : Instr σ) :
    (i.renamed ρ).retarget f = (i.retarget f).map (Instr.renamed ρ) := by
  cases i with
  | jump label | jumpIfFalse label => cases h : f label <;> simp [renamed, retarget, h, Except.map]
  | push | load | store | getMember | storeMember | pop | dup | unary | binary | cast | convert | makeVector
  | makeRotation | makeList | call | ret | retValue | changeState => rfl

theorem mapM_of_map {ε α β γ δ : Type} {j : α → β} {k : γ → δ} {f : α → Except ε γ} {g : β → Except ε δ}
    (h : ∀ a, g (j a) = (f a).map k) (as : List α) : (as.map j).mapM g = (as.mapM f).map (List.map k) := by
  induction as with
  | nil => rfl
  | cons a rest ih =>
    rw [List.map_cons, List.mapM_cons, List.mapM_cons, h, ih, bind_of_map]
    refine bind_congr_map fun b _ => ?_
    rw [bind_of_map]
    exact bind_congr_map fun bs _ => rfl

theorem Assembly.finish_renamed (a : Assembly) (locals : List Param) :
    (a.renamed ρ).finish locals = (a.finish locals).map (Chunk.renamed ρ) := by
  have hentry (d : Draft) :
      (a.renamed ρ).finishEntry (d.renamed ρ) = (a.finishEntry d).map (Entry.renamed ρ) := by
    have htarget : (a.renamed ρ).target = a.target := rfl
    unfold finishEntry
    rw [htarget, Draft.renamed, Instr.retarget_renamed]
    cases d.instr.retarget a.target <;> rfl
  unfold finish
  have hdrafts : (a.renamed ρ).drafts.toList = a.drafts.toList.map (Draft.renamed ρ) := Array.toList_map
  rw [hdrafts, mapM_of_map hentry, bind_of_map]
  refine bind_congr_map fun entries _ => ?_
  simp [pure, Except.pure, Except.map, Chunk.renamed]

def renumbering : List Nat → List Nat → Nat → Nat
  | a :: as, b :: bs, n => if n = a then b else renumbering as bs n
  | _, _, n => n

theorem map_renumbering {as bs : List Nat} (has : as.Nodup) (hlength : as.length = bs.length) :
    as.map (renumbering as bs) = bs := by
  induction as generalizing bs with
  | nil => simpa using hlength.symm
  | cons a as ih =>
    cases bs with
    | nil => simp at hlength
    | cons b bs =>
      obtain ⟨ha, has⟩ := List.nodup_cons.mp has
      have hrest : as.map (renumbering (a :: as) (b :: bs)) = as.map (renumbering as bs) := by
        refine List.map_congr_left fun n hn => ?_
        have hne : n ≠ a := fun h => ha (h ▸ hn)
        simp [renumbering, hne]
      rw [List.map_cons, hrest, ih has (by simpa using hlength)]
      simp [renumbering]

namespace Builder

/-- Two builders show the same members in the same order, but for the numbers of functions. -/
structure SameSight (b b' : Builder) (v : Visibility) : Prop where
  functions : (b'.visibleFunctions v).map (HostFunction.renumbered fun _ => 0) =
    (b.visibleFunctions v).map (HostFunction.renumbered fun _ => 0)
  constants : b'.visibleConstants v = b.visibleConstants v
  events : b'.visibleEvents v = b.visibleEvents v

def newNumber (b b' : Builder) (v : Visibility) : Nat → Nat :=
  renumbering ((b.visibleFunctions v).map HostFunction.id) ((b'.visibleFunctions v).map HostFunction.id)

theorem Reachable.visible_ids_nodup {b : Builder} (hb : b.Reachable) (v : Visibility) :
    ((b.visibleFunctions v).map HostFunction.id).Nodup := by
  have hall : b.functions.toList.Pairwise fun f g => f.id ≠ g.id := by
    rw [List.pairwise_iff_getElem]
    intro i j hi hj hij
    have hid (k : Nat) (hk : k < b.functions.toList.length) : b.functions.toList[k].id = k :=
      hb.numbered k _ (by simp at hk; simp [hk])
    rw [hid i hi, hid j hj]
    omega
  exact List.pairwise_map.mpr (hall.filter _)

theorem eq_map_renumbered {fs gs : List HostFunction} {ρ : Nat → Nat}
    (hsame : gs.map (HostFunction.renumbered fun _ => 0) = fs.map (HostFunction.renumbered fun _ => 0))
    (hids : gs.map HostFunction.id = (fs.map HostFunction.id).map ρ) :
    gs = fs.map (HostFunction.renumbered ρ) := by
  induction fs generalizing gs with
  | nil => simpa using hsame
  | cons f fs ih =>
    cases gs with
    | nil => simp at hsame
    | cons g gs =>
      simp only [List.map_cons, List.cons.injEq] at hsame hids
      have hhead : g = f.renumbered ρ := by
        obtain ⟨hg, -⟩ := hsame
        obtain ⟨hid, -⟩ := hids
        cases f
        cases g
        simp_all [HostFunction.renumbered]
      rw [List.map_cons, hhead, ← ih hsame.2 hids.2]

namespace SameSight

variable {v : Visibility} {b b' : Builder}

/-- The functions of the other builder under the renaming. -/
theorem functions_eq (h : b.SameSight b' v) (hb : b.Reachable) :
    b'.visibleFunctions v = (b.visibleFunctions v).map (HostFunction.renumbered (b.newNumber b' v)) := by
  refine eq_map_renumbered h.functions ?_
  have hlength := congrArg List.length h.functions
  rw [newNumber, map_renumbering (hb.visible_ids_nodup v)]
  simpa using hlength.symm

variable (h : b.SameSight b' v) (hb : b.Reachable) (hb' : b'.Reachable)

include h hb hb'

theorem overloads_eq (name : String) : (Registry.ofBuilder b').overloads name v =
    ((Registry.ofBuilder b).overloads name v).map (HostFunction.renumbered (b.newNumber b' v)) := by
  rw [Registry.overloads_ofBuilder hb', Registry.overloads_ofBuilder hb, h.functions_eq hb, List.filter_map]
  rfl

theorem env_matches (names : Names) :
    Env.Matches (b.newNumber b' v) ⟨.ofBuilder b, v, names⟩ ⟨.ofBuilder b', v, names⟩ where
  names := rfl
  constants name := by
    dsimp only
    rw [Registry.constant?_ofBuilder, Registry.constant?_ofBuilder, h.constants]
  overloads := h.overloads_eq hb hb'

theorem problems_eq (o : Outline) (last : Nat) :
    o.problems (.ofBuilder b') v last = o.problems (.ofBuilder b) v last := by
  have hglobal : Outline.globalProblem? (.ofBuilder b') v = Outline.globalProblem? (.ofBuilder b) v := by
    funext d
    rw [Outline.globalProblem?, Registry.constant?_ofBuilder, h.constants, ← Registry.constant?_ofBuilder,
      Outline.globalProblem?]
  have hfunction :
      Outline.functionProblem? (.ofBuilder b') v = Outline.functionProblem? (.ofBuilder b) v := by
    funext d
    simp [Outline.functionProblem?, Registry.hasFunction, h.overloads_eq hb hb']
  have hhandlers (state : String) (before : List String) (ds : List HandlerDecl) :
      Outline.handlerProblems (.ofBuilder b') v state before ds =
        Outline.handlerProblems (.ofBuilder b) v state before ds := by
    induction ds generalizing before with
    | nil => rfl
    | cons d rest ih =>
      rw [Outline.handlerProblems, Outline.handlerProblems, ih, Outline.handlerProblem?,
        Outline.handlerProblem?,
        Registry.event?_ofBuilder hb', Registry.event?_ofBuilder hb, h.events]
  simp only [Outline.problems, hglobal, hfunction, hhandlers]

/-- The parts of a script come out the same, but for the numbers of functions. -/
theorem agrees :
    Script.Agrees (Chunk.renamed (b.newNumber b' v)) .chunks .chunks (.ofBuilder b) (.ofBuilder b') v where
  problems := h.problems_eq hb hb'
  globalSlot names d slot := Script.globalSlot_carried Assembly.renamed_respects
    Generator.chunks_start (h.env_matches hb hb') fun _ _ _ _ => Assembly.finish_renamed _ _
  bodyCode kind names params body := by
    have hctx : BodyContext.Matches (b.newNumber b' v) ⟨.ofBuilder b, v, kind⟩ ⟨.ofBuilder b', v, kind⟩ :=
      ⟨rfl, h.env_matches hb hb'⟩
    exact Script.bodyCode_carried Body.assembly_reliable Body.assembly_reliable Assembly.renamed_respects
      Generator.chunks_start hctx fun _ _ _ =>
      Assembly.finish_renamed _ _

end SameSight

end Builder

section Calls

variable {v : Visibility} {b b' : Builder} {tokens : List Token} (h : b.SameSight b' v) (hb : b.Reachable)
  (hb' : b'.Reachable)

include h hb hb'

theorem Entry.callSite?_renamed (body : String) {e : Entry} (he : e.instr.Within (.inSight b v tokens)) :
    (e.renamed (b.newNumber b' v)).callSite? (.ofBuilder b') body =
      (e.callSite? (.ofBuilder b) body).map (CallSite.renamed (b.newNumber b' v)) := by
  obtain ⟨instr, line⟩ := e
  cases instr with
  | call callee n =>
    cases callee with
    | script index => rfl
    | host id =>
      obtain ⟨f, hf, rfl⟩ := he
      -- the old and the new number lead to one function
      have hold : (Registry.ofBuilder b).functions[f.id]? = some f := by
        rw [Registry.ofBuilder_functions]
        exact hb.numbered.get_of_mem (List.mem_filter.mp hf).1
      have hmem : f.renumbered (b.newNumber b' v) ∈ b'.visibleFunctions v := by
        rw [h.functions_eq hb]
        exact List.mem_map_of_mem hf
      have hnew : (Registry.ofBuilder b').functions[b.newNumber b' v f.id]? =
          some (f.renumbered (b.newNumber b' v)) := by
        rw [Registry.ofBuilder_functions]
        exact hb'.numbered.get_of_mem (List.mem_filter.mp hmem).1
      simp [Entry.callSite?, Entry.renamed, Instr.renamed, Callee.renamed, CallSite.renamed, hold, hnew,
        HostFunction.renumbered]
  | push | load | store | getMember | storeMember | pop | dup | unary | binary | cast | convert | makeVector
  | makeRotation | makeList | jump | jumpIfFalse | ret | retValue | changeState => rfl

theorem Chunk.callSites_renamed (body : String) {c : Chunk} (hc : c.Within (.inSight b v tokens)) :
    (c.renamed (b.newNumber b' v)).callSites (.ofBuilder b') body =
      (c.callSites (.ofBuilder b) body).map (CallSite.renamed (b.newNumber b' v)) := by
  rw [callSites, callSites, Chunk.renamed, Array.toList_map, List.filterMap_map, List.map_filterMap]
  exact List.filterMap_congr fun e he => Entry.callSite?_renamed h hb hb' body (hc e he)

theorem Program.callSites_renamed {p : Program Chunk} (hp : p.Within (.inSight b v tokens)) :
    (p.mapCode (Chunk.renamed (b.newNumber b' v))).callSites (.ofBuilder b') =
      (p.callSites (.ofBuilder b)).map (CallSite.renamed (b.newNumber b' v)) := by
  simp only [callSites, mapCode, List.map_append, List.flatMap_map, List.map_flatMap]
  congr 1
  · congr 1
    · exact List.flatMap_congr fun g hg => Chunk.callSites_renamed h hb hb' _ (hp.globals g hg)
    · exact List.flatMap_congr fun f hf => Chunk.callSites_renamed h hb hb' _ (hp.functions f hf)
  · exact List.flatMap_congr fun s hs => List.flatMap_congr fun k hk =>
      Chunk.callSites_renamed h hb hb' _ (hp.handlers s hs k hk)

end Calls

namespace Script

/-- A compilation depends on the members that its script may see, and its program refers to no others.
Two builders that show the same members in the same order lead to the same diagnostics, or to programs that
differ by the numbers of the functions that they call. -/
theorem compile_ignores_invisible {b b' : Builder} (hb : b.Reachable) (hb' : b'.Reachable)
    (options : CompileOptions) (replacements : Replacements) (source : String)
    (hlong : b'.allowLong = b.allowLong)
    (hsight : b.SameSight b' (effectiveVisibility options replacements source)) :
    let v := effectiveVisibility options replacements source
    let ρ := b.newNumber b' v
    b'.visibleFunctions v = (b.visibleFunctions v).map (HostFunction.renumbered ρ) ∧
      compile (.ofBuilder b') options replacements source =
        (compile (.ofBuilder b) options replacements source).map (Program.mapCode (Chunk.renamed ρ)) ∧
      ∀ p, compile (.ofBuilder b) options replacements source = .ok p →
        (p.mapCode (Chunk.renamed ρ)).callSites (.ofBuilder b') =
            (p.callSites (.ofBuilder b)).map (CallSite.renamed ρ) ∧
          ∃ ds tokens, Directive.ofSource replacements source = .ok ds ∧
            tokenize (Directive.blank replacements ds) source = .ok tokens ∧ p.InSight b v tokens := by
  intro v ρ
  refine ⟨hsight.functions_eq hb, ?_, fun p hp => ?_⟩
  · refine Session.outcome_carries (work_carries options replacements source ?_ fun ds hds => ?_)
    · rw [Registry.ofBuilder_longIntegers, Registry.ofBuilder_longIntegers, hlong]
    · rw [← effectiveVisibility_of_ok hds]
      exact hsight.agrees hb hb'
  · obtain ⟨ds, tokens, hds, htokens, hp⟩ := compile_inSight hb hp
    exact ⟨Program.callSites_renamed hsight hb hb' hp.code, ds, tokens, hds, htokens, hp⟩

end Script

namespace Sample

def shown : Builder := ((Builder.empty false).registerAll
  [.event (.ofParams "state_entry" []), .function { successor with group := some "tools" }]).2

def crowded : Builder := ((Builder.empty false).registerAll
  [.function { successor with group := some "vault" },
    .constant { ConstantOffer.ofValue "n" (.integer 7) with group := some "vault" },
    .event (.ofParams "state_entry" []), .function { successor with group := some "tools" }]).2

def toolScript : String := "#extension tools\ninteger n; default { state_entry() { n = successor(n); } }"

theorem shown_reachable : shown.Reachable := (Builder.Reachable.empty false).registerAll _

theorem crowded_reachable : crowded.Reachable := (Builder.Reachable.empty false).registerAll _

theorem toolScript_visibility :
    Script.effectiveVisibility options [] toolScript = visibility.withGroup "tools" := by
  have h : (Directive.ofSource [] toolScript).toOption = some [(1, .extension "tools")] := by decide +kernel
  cases hd : Directive.ofSource [] toolScript with
  | error d => simp [hd, Except.toOption] at h
  | ok ds =>
    have hds : ds = [(1, .extension "tools")] := by simpa [hd, Except.toOption] using h
    rw [Script.effectiveVisibility_of_ok hd, hds]
    rfl

theorem toolScript_compiles : ∃ p, Script.compile (.ofBuilder shown) options [] toolScript = .ok p :=
  ok_of_isOk (by decide +kernel)

theorem shown_sameSight_crowded :
    shown.SameSight crowded (Script.effectiveVisibility options [] toolScript) := by
  rw [toolScript_visibility]
  constructor <;> with_unfolding_all rfl

end Sample

theorem Script.sample_ignores_invisible :
    Sample.shown.SameSight Sample.crowded (effectiveVisibility Sample.options [] Sample.toolScript) ∧
      Sample.shown.newNumber Sample.crowded (effectiveVisibility Sample.options [] Sample.toolScript) 0 = 1 ∧
      ∃ p, compile (.ofBuilder Sample.shown) Sample.options [] Sample.toolScript = .ok p ∧
        compile (.ofBuilder Sample.crowded) Sample.options [] Sample.toolScript =
          .ok (p.mapCode (Chunk.renamed
          (Sample.shown.newNumber Sample.crowded
            (effectiveVisibility Sample.options [] Sample.toolScript)))) := by
  have hlong : Sample.crowded.allowLong = Sample.shown.allowLong := by decide +kernel
  obtain ⟨-, hsame, -⟩ :=
    compile_ignores_invisible Sample.shown_reachable Sample.crowded_reachable Sample.options []
    Sample.toolScript hlong Sample.shown_sameSight_crowded
  obtain ⟨p, hp⟩ := Sample.toolScript_compiles
  refine ⟨Sample.shown_sameSight_crowded, ?_, p, hp, ?_⟩
  · rw [Sample.toolScript_visibility]
    decide +kernel
  · rwa [hp] at hsame

end WorldScript
