import WorldScript.Proofs.Capability.Lookup
import WorldScript.Proofs.Expr.Renaming
import WorldScript.Proofs.Expr.Typing

/-! # Which overload a call means

Among the overloads of a name that may be seen, those whose parameters have the types of the arguments come
first, and then those that the arguments can be converted for.  A single one of the second sort is what the
call means, and several are reported.  Of the first sort the earliest registered one is taken, however many
there are: two groups, or two dialects that are seen together, may both have one.
-/

namespace WorldScript

def HostFunction.takes (types : List Ty) (f : HostFunction) : Bool := f.params = types

def HostFunction.callExpr (f : HostFunction) (args : List Expr) (line : Nat) : Expr :=
  .call ⟨f.returns, line⟩ (.host f.id) (List.zipWith Expr.convertedTo args f.params)

def HostFunction.unnumbered (f : HostFunction) : HostFunction := f.renumbered fun _ => 0

def Builder.overloadsIn (b : Builder) (name : String) (v : Visibility) : List HostFunction :=
  b.functions.toList.filter fun f => f.name = name && v.permits f.dialects f.group

theorem Registry.overloads_eq_overloadsIn {b : Builder} (h : b.Reachable) (name : String) (v : Visibility) :
    (ofBuilder b).overloads name v = b.overloadsIn name v := by
  rw [overloads_ofBuilder h, Builder.visibleFunctions, List.filter_filter, Builder.overloadsIn]

inductive Verdict where
  | means (f : HostFunction)
  | undeclared
  | unmatched
  | ambiguous

namespace Verdict

def Picked (types : List Ty) (fs : List HostFunction) : Verdict → Prop
  | .means f => (∃ others, fs.filter (·.takes types) = f :: others) ∨
      (fs.filter (·.takes types) = [] ∧ fs.filter (Env.reaches types) = [f])
  | .undeclared => fs = []
  | .unmatched => fs ≠ [] ∧ fs.filter (Env.reaches types) = []
  | .ambiguous => fs.filter (·.takes types) = [] ∧ 2 ≤ (fs.filter (Env.reaches types)).length

def Among (fs : List HostFunction) : Verdict → Prop
  | .means f => f ∈ fs
  | .undeclared | .unmatched | .ambiguous => True

def outcome (name : String) (types : List Ty) (line : Nat) (fs : List HostFunction) :
    Verdict → Except Diagnostic HostFunction
  | .means f => .ok f
  | .undeclared => .error (.semantic line (.undeclared name))
  | .unmatched => .error (.semantic line (.noOverload name types (fs.map HostFunction.signature)))
  | .ambiguous =>
    .error (.semantic line
      (.ambiguousCall name types ((fs.filter (Env.reaches types)).map HostFunction.signature)))

def result (name : String) (types : List Ty) (args : List Expr) (line : Nat) (fs : List HostFunction)
    (c : Verdict) : Except Diagnostic Expr := (c.outcome name types line fs).map (·.callExpr args line)

def unnumbered : Verdict → Verdict
  | .means f => .means f.unnumbered
  | .undeclared => .undeclared
  | .unmatched => .unmatched
  | .ambiguous => .ambiguous

variable {types : List Ty} {fs : List HostFunction} {c c' : Verdict}

theorem filter_takes_of_reaches (h : fs.filter (Env.reaches types) = []) :
    fs.filter (·.takes types) = [] := by
  rw [List.filter_eq_nil_iff] at h ⊢
  intro f hf htakes
  exact h f hf (Env.reaches_of_params (by simpa [HostFunction.takes] using htakes))

theorem Picked.among (h : c.Picked types fs) : c.Among fs := by
  cases c with
  | undeclared | unmatched | ambiguous => trivial
  | means f =>
    obtain ⟨others, hf⟩ | ⟨-, hf⟩ := h
    · exact (List.mem_filter.mp (hf ▸ List.mem_cons_self)).1
    · exact (List.mem_filter.mp (hf ▸ List.mem_cons_self)).1

theorem Picked.unique (h : c.Picked types fs) (h' : c'.Picked types fs) : c = c' := by
  have hreaches : fs.filter (Env.reaches types) = [] → fs.filter (·.takes types) = [] :=
    filter_takes_of_reaches
  have hempty : fs = [] → fs.filter (Env.reaches types) = [] := by
    rintro rfl
    rfl
  unfold Picked at h h'
  generalize fs.filter (·.takes types) = exact at h h' hreaches
  generalize fs.filter (Env.reaches types) = reached at h h' hreaches hempty
  cases c <;> cases c' <;> grind

/-- Calls of two functions differ in the number of the function. -/
theorem result_injOn {name : String} {args : List Expr} {line : Nat}
    (hids : ∀ f ∈ fs, ∀ g ∈ fs, f.id = g.id → f = g) (hc : c.Among fs) (hc' : c'.Among fs)
    (h : c.result name types args line fs = c'.result name types args line fs) : c = c' := by
  cases c with
  | means f =>
    cases c' with
    | means g =>
      simp only [result, outcome, Except.map, HostFunction.callExpr, Except.ok.injEq, Expr.call.injEq,
        Callee.host.injEq] at h
      rw [hids f hc g hc' h.2.1]
    | undeclared | unmatched | ambiguous => cases h
  | undeclared | unmatched | ambiguous =>
    cases c' <;> simp_all [result, outcome, Except.map, Diagnostic.semantic]

section Order

variable {gs : List HostFunction} {p : HostFunction → Bool} {c c' : Verdict}

theorem filter_perm (h : (fs.map HostFunction.unnumbered).Perm (gs.map HostFunction.unnumbered))
    (hp : ∀ f, p f.unnumbered = p f) :
    ((fs.filter p).map HostFunction.unnumbered).Perm ((gs.filter p).map HostFunction.unnumbered) := by
  have hmap (hs : List HostFunction) :
      (hs.filter p).map HostFunction.unnumbered = (hs.map HostFunction.unnumbered).filter p := by
    rw [List.filter_map]
    congr 2
    exact (funext hp).symm
  rw [hmap, hmap]
  exact h.filter p

theorem length_filter_of_perm (h : (fs.map HostFunction.unnumbered).Perm (gs.map HostFunction.unnumbered))
    (hp : ∀ f, p f.unnumbered = p f) : (fs.filter p).length = (gs.filter p).length := by
  simpa using (filter_perm h hp).length_eq

/-- A function that is the only one of its sort is so in any order. -/
theorem filter_singleton_of_perm
    (h : (fs.map HostFunction.unnumbered).Perm (gs.map HostFunction.unnumbered))
    (hp : ∀ f, p f.unnumbered = p f) {f g : HostFunction} (hg : g ∈ gs) (hfg : f.unnumbered = g.unnumbered)
    (hf : fs.filter p = [f]) : gs.filter p = [g] := by
  have hlength := length_filter_of_perm h hp
  rw [hf] at hlength
  obtain ⟨only, honly⟩ := List.length_eq_one_iff.mp hlength.symm
  have hpf : p f = true := (List.mem_filter.mp (hf ▸ List.mem_singleton_self f)).2
  have hpg : p g = true := by rw [← hp, ← hfg, hp, hpf]
  have hmem : g ∈ gs.filter p := List.mem_filter.mpr ⟨hg, hpg⟩
  rw [honly] at hmem ⊢
  rw [List.mem_singleton.mp hmem]

/-- Where no two overloads take the types of the arguments, the verdict does not depend on their order. -/
theorem Picked.of_perm (h : (fs.map HostFunction.unnumbered).Perm (gs.map HostFunction.unnumbered))
    (hsingle : (fs.filter (·.takes types)).length ≤ 1) (hsame : c.unnumbered = c'.unnumbered)
    (hc' : c'.Among gs) (hc : c.Picked types fs) : c'.Picked types gs := by
  have htakes (f : HostFunction) : f.unnumbered.takes types = f.takes types := rfl
  have hreaches (f : HostFunction) : Env.reaches types f.unnumbered = Env.reaches types f := rfl
  have hnil {p : HostFunction → Bool} (hp : ∀ f, p f.unnumbered = p f) (hfs : fs.filter p = []) :
      gs.filter p = [] := by
    rw [← List.length_eq_zero_iff, ← length_filter_of_perm h hp, hfs, List.length_nil]
  have hempty : gs = [] ↔ fs = [] := by
    have hlength := h.length_eq
    rw [List.length_map, List.length_map] at hlength
    rw [← List.length_eq_zero_iff, ← hlength, List.length_eq_zero_iff]
  cases c with
  | means f =>
    cases c' with
    | undeclared | unmatched | ambiguous => cases hsame
    | means g =>
      have hfg : f.unnumbered = g.unnumbered := by simpa [unnumbered] using hsame
      obtain ⟨others, hf⟩ | ⟨hnone, hf⟩ := hc
      · rw [hf] at hsingle
        obtain rfl : others = [] := by simpa using hsingle
        exact .inl ⟨[], filter_singleton_of_perm h htakes hc' hfg hf⟩
      · exact .inr ⟨hnil htakes hnone, filter_singleton_of_perm h hreaches hc' hfg hf⟩
  | undeclared =>
    cases c' with
    | undeclared => exact hempty.mpr hc
    | means | unmatched | ambiguous => cases hsame
  | unmatched =>
    cases c' with
    | unmatched => exact ⟨fun hgs => hc.1 (hempty.mp hgs), hnil hreaches hc.2⟩
    | means | undeclared | ambiguous => cases hsame
  | ambiguous =>
    cases c' with
    | ambiguous => exact ⟨hnil htakes hc.1, length_filter_of_perm h hreaches ▸ hc.2⟩
    | means | undeclared | unmatched => cases hsame

theorem picked_iff_of_perm (h : (fs.map HostFunction.unnumbered).Perm (gs.map HostFunction.unnumbered))
    (hsingle : (fs.filter (·.takes types)).length ≤ 1) (hsame : c.unnumbered = c'.unnumbered)
    (hc : c.Among fs) (hc' : c'.Among gs) : c.Picked types fs ↔ c'.Picked types gs := by
  have hlength := length_filter_of_perm h (p := (·.takes types)) fun _ => rfl
  exact ⟨.of_perm h hsingle hsame hc', .of_perm h.symm (hlength ▸ hsingle) hsame.symm hc⟩

end Order

end Verdict

namespace Env

variable {env : Env} {name : String} {types : List Ty} {line : Nat} {terms : List Term} {args : List Expr}
  {b : Builder}

theorem overload_picked {fs : List HostFunction} (hfs : env.registry.overloads name env.visibility = fs)
    (types : List Ty) (line : Nat) :
    ∃ c : Verdict, c.Picked types fs ∧ env.overload name types line = c.outcome name types line fs := by
  unfold overload
  simp only [hfs]
  have hfind : fs.find? (fun f => decide (f.params = types)) = (fs.filter (·.takes types)).head? :=
    List.head?_filter.symm
  rw [hfind]
  by_cases hempty : fs = []
  · exact ⟨.undeclared, hempty, by simp [hempty, Verdict.outcome]⟩
  rw [if_neg (by simpa using hempty)]
  cases htakes : fs.filter (·.takes types) with
  | cons f others => exact ⟨.means f, .inl ⟨others, htakes⟩, rfl⟩
  | nil =>
    cases hreaches : fs.filter (reaches types) with
    | nil => exact ⟨.unmatched, ⟨hempty, hreaches⟩, rfl⟩
    | cons f more =>
      cases more with
      | nil => exact ⟨.means f, .inr ⟨htakes, hreaches⟩, rfl⟩
      | cons other more =>
        exact ⟨.ambiguous, ⟨htakes, by simp [hreaches]⟩, by simp [Verdict.outcome, hreaches]⟩

/-- A call of a name that is no function of the script is a call of the overload that is meant. -/
theorem elaborate_call_eq (hname : env.names.functionIndex? name = none)
    (hargs : env.elaborateAll terms = .ok args) (htypes : args.mapM Expr.valueTy = .ok types) :
    env.elaborate (.call name terms line) = (env.overload name types line).map (·.callExpr args line) := by
  have hlength : args.length = types.length := by simpa using congrArg List.length (mapM_valueTy htypes)
  have hsnd : (args.zip types).map Prod.snd = types := List.map_snd_zip (Nat.le_of_eq hlength.symm)
  have hconverted (f : HostFunction) : ((args.zip types).zip f.params).map (fun p => p.1.1.convertedTo p.2) =
      List.zipWith Expr.convertedTo args f.params := by
    rw [List.map_zip_eq_zipWith]
    conv_rhs => rw [← List.map_fst_zip (Nat.le_of_eq hlength), List.zipWith_map_left]
    rfl
  rw [elaborate, hargs]
  change env.callExpr name args line = _
  rw [callExpr, htypes, hname]
  change env.hostCall name (args.zip types) line = _
  rw [hostCall, hsnd]
  cases env.overload name types line with
  | error d => rfl
  | ok f =>
    exact congrArg (fun args => Except.ok (Expr.call ⟨f.returns, line⟩ (.host f.id) args)) (hconverted f)

theorem overloadsIn_ids (hb : b.Reachable) (name : String) (v : Visibility) :
    ∀ f ∈ b.overloadsIn name v, ∀ g ∈ b.overloadsIn name v, f.id = g.id → f = g := by
  intro f hf g hg hid
  have hf := hb.numbered.get_of_mem (List.mem_filter.mp hf).1
  have hg := hb.numbered.get_of_mem (List.mem_filter.mp hg).1
  rw [hid, hg] at hf
  exact (Option.some.inj hf).symm

/-- A call of a host function ends in a verdict exactly when its conditions are met. -/
theorem elaborate_call_iff (hb : b.Reachable) (hreg : env.registry = .ofBuilder b)
    (hname : env.names.functionIndex? name = none) (hargs : env.elaborateAll terms = .ok args)
    (htypes : args.mapM Expr.valueTy = .ok types) {c : Verdict}
    (hc : c.Among (b.overloadsIn name env.visibility)) :
    env.elaborate (.call name terms line) = c.result name types args line
      (b.overloadsIn name env.visibility) ↔
      c.Picked types (b.overloadsIn name env.visibility) := by
  have hfs : env.registry.overloads name env.visibility = b.overloadsIn name env.visibility := by
    rw [hreg, Registry.overloads_eq_overloadsIn hb]
  obtain ⟨found, hfound, heq⟩ := overload_picked hfs types line
  rw [elaborate_call_eq hname hargs htypes, heq]
  constructor
  · intro h
    exact Verdict.result_injOn (overloadsIn_ids hb name env.visibility) hfound.among hc h ▸ hfound
  · intro h
    rw [hfound.unique h]
    rfl

/-- A call of a name that is no function of the script ends in just the verdict that the visible
overloads of the name give rise to.  If no two of them take the types of the arguments, then registered
in any other order they lead to the same. -/
theorem call_verdict {b : Builder} (hb : b.Reachable) (hreg : env.registry = .ofBuilder b)
    (hname : env.names.functionIndex? name = none) {terms : List Term} {args : List Expr}
    (hargs : env.elaborateAll terms = .ok args) (htypes : args.mapM Expr.valueTy = .ok types) (line : Nat) :
    (∀ c : Verdict, c.Among (b.overloadsIn name env.visibility) →
      (env.elaborate (.call name terms line) = c.result name types args line
        (b.overloadsIn name env.visibility) ↔
        c.Picked types (b.overloadsIn name env.visibility))) ∧
      (∃ c : Verdict, c.Picked types (b.overloadsIn name env.visibility)) ∧
      ∀ (b' : Builder) (other : Env) (terms' : List Term) (args' : List Expr), b'.Reachable →
        other.registry = .ofBuilder b' → other.names.functionIndex? name = none →
        other.elaborateAll terms' = .ok args' → args'.mapM Expr.valueTy = .ok types →
        ((b.overloadsIn name env.visibility).map HostFunction.unnumbered).Perm
          ((b'.overloadsIn name other.visibility).map HostFunction.unnumbered) →
        ((b.overloadsIn name env.visibility).filter (·.takes types)).length ≤ 1 →
        ∀ c c' : Verdict, c.Among (b.overloadsIn name env.visibility) →
          c'.Among (b'.overloadsIn name other.visibility) →
          c.unnumbered = c'.unnumbered →
          (env.elaborate (.call name terms line) = c.result name types args line
            (b.overloadsIn name env.visibility) ↔
            other.elaborate (.call name terms' line) =
              c'.result name types args' line (b'.overloadsIn name other.visibility)) := by
  refine ⟨fun c hc => elaborate_call_iff hb hreg hname hargs htypes hc, ?_, ?_⟩
  · have hfs : env.registry.overloads name env.visibility = b.overloadsIn name env.visibility := by
      rw [hreg, Registry.overloads_eq_overloadsIn hb]
    obtain ⟨c, hc, -⟩ := overload_picked hfs types line
    exact ⟨c, hc⟩
  · intro b' other terms' args' hb' hreg' hname' hargs' htypes' hperm hsingle c c' hc hc' hsame
    rw [elaborate_call_iff hb hreg hname hargs htypes hc,
      elaborate_call_iff hb' hreg' hname' hargs' htypes' hc']
    exact Verdict.picked_iff_of_perm hperm hsingle hsame hc hc'

end Env

namespace Sample

variable {first second : Dialect}

def twins (first second : Dialect) : Builder :=
  ((Builder.empty false).registerAll [.function { successor with dialects := .only first },
    .function { successor with dialects := .only second }]).2

theorem twins_reachable (first second : Dialect) : (twins first second).Reachable :=
  (Builder.Reachable.empty false).registerAll _

def twinEnv (first second : Dialect) : Env := ⟨.ofBuilder (twins first second), ⟨.all, .empty⟩, .empty⟩

def twinCall : Term := .call "successor" [.literal (.integer 1) 1] 1

theorem twins_take (h : first ≠ second) :
    (((twins first second).overloadsIn "successor" (twinEnv first second).visibility).filter
      (·.takes [.integer])).map HostFunction.dialects = [.only first, .only second] := by
  revert h
  cases first <;> cases second <;> decide +kernel

theorem twins_picked (h : first ≠ second) :
    ∃ f : HostFunction,
    f.dialects = .only first ∧ Verdict.Picked [.integer]
      ((twins first second).overloadsIn "successor" (twinEnv first second).visibility) (.means f) := by
  obtain ⟨f, rest, hf, hdialects, -⟩ := List.map_eq_cons_iff.mp (twins_take h)
  exact ⟨f, hdialects, .inl ⟨rest, hf⟩⟩

end Sample

/-- The first of two functions that take the argument is what the call means. -/
theorem Env.twins_first :
    (Sample.twins .lsl .ossl).Reachable ∧
    (Sample.twinEnv .lsl .ossl).names.functionIndex? "successor" = none ∧
      ∃ f : HostFunction, f.dialects = .only .lsl ∧
        (Sample.twinEnv .lsl .ossl).elaborate Sample.twinCall =
          .ok (f.callExpr [.ofValue (.integer 1) 1] 1) := by
  obtain ⟨hverdict, -⟩ :=
    @call_verdict (Sample.twinEnv .lsl .ossl) "successor" [.integer] (Sample.twins .lsl .ossl)
    (Sample.twins_reachable _ _) rfl rfl [.literal (.integer 1) 1] [.ofValue (.integer 1) 1] rfl rfl 1
  obtain ⟨f, hdialects, hf⟩ := @Sample.twins_picked .lsl .ossl (by decide)
  exact ⟨Sample.twins_reachable _ _, rfl, f, hdialects, (hverdict (.means f) hf.among).mpr hf⟩

/-- Two functions take the argument, and the call is not ambiguous: it means the one that was registered
first, so that it means another one when they are registered in the other order. -/
theorem Env.twins_not_ambiguous :
    (((Sample.twins .lsl .ossl).overloadsIn "successor" (Sample.twinEnv .lsl .ossl).visibility).filter
        (·.takes [.integer])).length = 2 ∧
      (∃ f : HostFunction, f.dialects = .only .lsl ∧
        (Sample.twinEnv .lsl .ossl).elaborate Sample.twinCall =
          .ok (f.callExpr [.ofValue (.integer 1) 1] 1)) ∧
      ∃ f : HostFunction, f.dialects = .only .ossl ∧
        (Sample.twinEnv .ossl .lsl).elaborate Sample.twinCall =
          .ok (f.callExpr [.ofValue (.integer 1) 1] 1) := by
  have hcall (first second : Dialect) (h : first ≠ second) : ∃ f : HostFunction, f.dialects = .only first ∧
      (Sample.twinEnv first second).elaborate Sample.twinCall =
        .ok (f.callExpr [.ofValue (.integer 1) 1] 1) := by
    obtain ⟨f, hdialects, hf⟩ := Sample.twins_picked h
    exact ⟨f, hdialects,
      (elaborate_call_iff (Sample.twins_reachable first second) rfl rfl rfl rfl hf.among).mpr hf⟩
  exact ⟨by decide +kernel, hcall .lsl .ossl (by decide), hcall .ossl .lsl (by decide)⟩

end WorldScript
