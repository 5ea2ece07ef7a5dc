import WorldScript.Proofs.Machine.Step

/-! # First values of variables

Variables get their first values one after the other, so an initializer runs while those after it do not
exist.  Its own code mentions none of them, but it may call functions of the script, and these see all
variables.  This is the one way in which a variable can be missed.
-/

namespace WorldScript

variable {p : Program Chunk} {c : Chunk} {x : Var}

def Chunk.Calls (c : Chunk) (index : Nat) : Prop := ∃ count, Instr.call (.script index) count ∈ c.code

inductive Program.Reaches (p : Program Chunk) (c : Chunk) : ScriptFunction Chunk → Prop
  | call {index : Nat} {f : ScriptFunction Chunk} (hc : c.Calls index) (hf : p.functions[index]? = some f) :
      Reaches p c f
  | through {index : Nat} {f g : ScriptFunction Chunk} (h : Reaches p c f) (hc : f.code.Calls index)
      (hg : p.functions[index]? = some g) : Reaches p c g

/-- A body that is the initializer `init` itself or a function that it reaches, with all its locals. -/
structure Activation.Serves (p : Program Chunk) (init : Chunk) (a : Activation) : Prop where
  body : a.chunk = init ∨ ∃ f, p.Reaches init f ∧ a.chunk = f.code
  locals : a.locals.size = a.chunk.locals.length

structure Config.Serves (p : Program Chunk) (init : Chunk) (n : Nat) (c : Config) : Prop where
  globals : c.store.globals.size = n
  active : c.active.Serves p init
  callers : ∀ q ∈ c.callers, q.caller.Serves p init

def Program.Misses (p : Program Chunk) (init : Chunk) (n : Nat) (x : Var) : Prop :=
  ∃ c : Config, c.Serves p init n ∧ c.active.chunk.Touches x ∧ c.Lacks x

section

variable {w : World} {init : Chunk} {n : Nat} {c d : Config} {i : Instr Nat} {p : Program Chunk}
  {a : Activation}

theorem Activation.Serves.resume {q : Pending} (h : q.caller.Serves p init) (value : Option Value) :
    (q.resume value).Serves p init := by
  unfold Pending.resume
  split
  · exact h
  · exact ⟨h.body, h.locals⟩

theorem Config.Serves.same (h : c.Serves w.program init n) (hd : c.SameShape d) :
    d.Serves w.program init n := by
  refine ⟨hd.globals.trans h.globals, ⟨?_, ?_⟩, ?_⟩
  · rw [hd.chunk]
    exact h.active.body
  · rw [hd.locals, hd.chunk]
    exact h.active.locals
  · rw [hd.callers]
    exact h.callers

/-- A function that a body of the run calls is reached by the initializer. -/
theorem Activation.Serves.reaches (h : a.Serves p init) {index : Nat} {f : ScriptFunction Chunk}
    (hc : a.chunk.Calls index) (hf : p.functions[index]? = some f) : p.Reaches init f := by
  rcases h.body with hinit | ⟨g, hg, hcode⟩
  · rw [hinit] at hc
    exact .call hc hf
  · rw [hcode] at hc
    exact .through hg hc hf

theorem Config.Serves.step (h : c.Serves w.program init n) (hi : i ∈ c.active.chunk.code)
    (ho : Outcome w c i (.next d)) : d.Serves w.program init n := by
  cases ho with
  | stay hd => exact h.same hd
  | @call index count f d a he hf hd hdepth hchunk hlocals =>
    subst he
    have hserves := h.same hd
    refine ⟨hserves.globals, ⟨.inr ⟨f, h.active.reaches ⟨count, hi⟩ hf, hchunk⟩, ?_⟩, ?_⟩
    · rw [hchunk]
      exact hlocals
    · intro q hq
      rcases List.mem_cons.mp hq with rfl | hq
      · exact hserves.active
      · exact hserves.callers q hq
  | @resume d p rest value hd hcallers =>
    have hserves := h.same hd
    have hp : p ∈ d.callers := hcallers ▸ List.mem_cons_self
    refine ⟨hserves.globals, (hserves.callers p hp).resume value, fun q hq => hserves.callers q ?_⟩
    exact hcallers ▸ List.mem_cons_of_mem p hq

def Ready.Serves (p : Program Chunk) (init : Chunk) (n : Nat) : Ready → Prop
  | .ended _ store => store.globals.size = n
  | .instr i c => c.Serves p init n ∧ i ∈ c.active.chunk.code

theorem settle_serves {store : Store} {callers : List Pending}
    (h : Config.Serves p init n ⟨store, a, callers⟩) : (settle store a callers).Serves p init n := by
  refine settle_rule (I := Config.Serves p init n) ?_ ?_ ?_ h
  · exact fun _ h => h.globals
  · intro _ q rest h
    refine ⟨h.globals, (h.callers q List.mem_cons_self).resume none, fun r hr => ?_⟩
    exact h.callers r (List.mem_cons_of_mem q hr)
  · intro a _ i h hi
    have hmem : i ∈ a.chunk.code := Activation.mem_of_fetch? hi
    exact ⟨⟨h.globals, ⟨h.active.body, h.active.locals⟩, h.callers⟩, hmem⟩

/-- A run creates no variable, and misses one only in a body that mentions it. -/
theorem run_serves (budget : Nat) (h : c.Serves w.program init n) :
    Delivers (fun f => ∀ x, f = .noVariable x → w.program.Misses init n x) (fun _ =>
      (run w budget c).store.globals.size = n)
      (run w budget c).outcome := by
  refine run_rule (R := fun r => Delivers (fun f => ∀ x, f = .noVariable x → w.program.Misses init n x)
    (fun _ => r.store.globals.size = n) r.outcome) (fun _ => settle_serves) ?_ ?_ ?_ ?_ ?_ h
  · exact fun _ _ _ hready => hready
  · exact fun _ _ _ x hx => by cases hx
  · exact fun i ready d hready he => hready.1.step hready.2 (he ▸ Config.execute_outcome w ready i)
  · intro i ready ending store _ hready he
    have hout := Config.execute_outcome w ready i
    rw [he] at hout
    cases hout with
    | done hd _ => exact hd.globals.trans hready.1.globals
  · intro i ready f store _ hready he
    have hout := Config.execute_outcome w ready i
    rw [he] at hout
    cases hout with
    | fault hf =>
      rintro x rfl
      cases hf with
      | values h => cases h
      | noVariable htouches hlacks => exact ⟨ready, hready.1, ⟨i, hready.2, htouches⟩, hlacks⟩

end

namespace Machine

variable {w : World} {m : Machine} {x : Var}

theorem runChunk_misses (init : Chunk) :
    match runChunk w init [] m with
    | .ok _ after => after.store.globals.size = m.store.globals.size
    | .error f _ => ∀ x, f = .noVariable x → w.program.Misses init m.store.globals.size x := by
  cases henter : Activation.enter init [] with
  | error f =>
    have hfault : runChunk w init [] m = .error f m := by
      unfold runChunk
      rw [run_get_bind, henter]
      rfl
    rw [hfault]
    rintro x rfl
    cases Activation.enter_error henter
  | ok a =>
    obtain ⟨hchunk, hlocals⟩ := Activation.enter_ok henter
    have hstart : Config.Serves w.program init m.store.globals.size ⟨m.store, a, []⟩ :=
      ⟨rfl, ⟨.inl hchunk, by rw [hlocals, hchunk]⟩, fun q hq => by cases hq⟩
    have hrun := run_serves m.budget hstart
    rw [runChunk_eq henter]
    cases ho : (run w m.budget ⟨m.store, a, []⟩).outcome with
    | ok ending =>
      rw [ho] at hrun
      exact hrun
    | error f =>
      rw [ho] at hrun
      exact hrun

/-- Variables get their first values one after the other; if one is missed, then in the run of an initializer
before which there are as many variables as there are values. -/
theorem firstValues_misses (done rest : List (GlobalSlot Chunk)) {after : Machine}
    (hm : m.store.globals.size = done.length) (h : firstValues w rest m = .error (.noVariable x) after) :
    ∃ i g, (done ++ rest)[i]? = some g ∧ w.program.Misses g.init i x := by
  induction rest generalizing done m with
  | nil => cases h
  | cons g rest ih =>
    have hchunk := runChunk_misses (w := w) (m := m) g.init
    cases hr : runChunk w g.init [] m with
    | error f m₁ =>
      rw [hr] at hchunk
      rw [firstValues, run_bind_of_error hr] at h
      cases h
      refine ⟨done.length, g, by simp, ?_⟩
      rw [← hm]
      exact hchunk x rfl
    | ok ending m₁ =>
      rw [hr] at hchunk
      rw [firstValues, run_bind_of_ok hr] at h
      obtain ⟨m₂, hm₂, h⟩ : ∃ m₂ : Machine, m₂.store.globals.size = m₁.store.globals.size + 1 ∧
          firstValues w rest m₂ = .error (.noVariable x) after := ⟨_, Array.size_push _, h⟩
      have hsize : m₂.store.globals.size = (done ++ [g]).length := by
        rw [hm₂, hchunk, hm, List.length_append, List.length_singleton]
      obtain ⟨i, slot, hslot, hmisses⟩ := ih (done ++ [g]) hsize h
      exact ⟨i, slot, by simpa using hslot, hmisses⟩

theorem create_misses {host : Host} (h : create w host = .error (.noVariable x)) :
    ∃ i g, w.program.globals[i]? = some g ∧ w.program.Misses g.init i x := by
  unfold create at h
  split at h
  · cases h
  · split at h
    · cases h
    · rename_i hfirst
      cases h
      exact firstValues_misses [] _ rfl hfirst

end Machine

theorem Program.Reaches.mem {f : ScriptFunction Chunk} (h : p.Reaches c f) : f ∈ p.functions := by
  cases h with
  | call _ hf => exact List.mem_of_getElem? hf
  | through _ _ hf => exact List.mem_of_getElem? hf

theorem Program.WellFormedChunk.hasVar {r : Registry} {event : Bool} (h : p.WellFormedChunk r event c)
    (hx : c.Touches x) : p.HasVar c x := by
  obtain ⟨i, hi, hix⟩ := hx
  have hknown := h.known i hi
  cases i with
  | load y | store y | storeMember y axis =>
    cases hix
    exact hknown
  | _ => cases hix

/-- A variable that is missed while variables get their first values is one of the script that has none yet,
and a function that the initializer reaches mentions it. -/
theorem Program.Misses.blame {registry : Registry} (hr : registry.Built) {options : CompileOptions}
    {replacements : Replacements} {source : String}
    (hp : Script.compile registry options replacements source = .ok p) {i : Nat} {g : GlobalSlot Chunk}
    (hg : p.globals[i]? = some g) (h : p.Misses g.init i x) :
    ∃ j f, x = .glob j ∧ i ≤ j ∧ j < p.globals.length ∧ p.Reaches g.init f ∧ f.code.Touches (.glob j) := by
  have hwell := Script.compile_wellFormed hr hp
  obtain ⟨c, hserves, htouches, hlacks⟩ := h
  have hchunk : p.WellFormedChunk registry false c.active.chunk := by
    rcases hserves.active.body with hinit | ⟨f, hf, hcode⟩
    · rw [hinit]
      exact hwell.globals g (List.mem_of_getElem? hg)
    · rw [hcode]
      exact hwell.functions f hf.mem
  have hvar := hchunk.hasVar htouches
  cases x with
  | loc slot =>
    -- all locals of a body are there
    have hlt : slot < c.active.chunk.locals.length := hvar
    have hle : c.active.locals.size ≤ slot := hlacks
    rw [hserves.active.locals] at hle
    omega
  | glob j =>
    have hle : c.store.globals.size ≤ j := hlacks
    rw [hserves.globals] at hle
    rcases hserves.active.body with hinit | ⟨f, hf, hcode⟩
    · rw [hinit] at htouches
      have hlt := Script.initializer_touches hr hp hg htouches
      omega
    · rw [hcode] at htouches
      exact ⟨j, f, rfl, hle, hvar, hf, htouches⟩

/-- The code of an initializer mentions earlier variables only; if that is so of the functions it reaches
too, a machine is never refused over a missing variable.  Where one is, a function that an initializer
reaches mentions a variable that is not before that initializer's. -/
theorem Machine.create_missing_variable {registry : Registry} (hr : registry.Built)
    {options : CompileOptions} {replacements : Replacements} {source : String} {p : Program Chunk}
    (hp : Script.compile registry options replacements source = .ok p) :
    (∀ i (g : GlobalSlot Chunk) j, p.globals[i]? = some g → g.init.Touches (.glob j) → j < i) ∧
      ((∀ i (g : GlobalSlot Chunk) (f : ScriptFunction Chunk) j, p.globals[i]? = some g → p.Reaches g.init f →
        f.code.Touches (.glob j) → j < i) →
        ∀ host x, create ⟨p, registry⟩ host ≠ .error (.noVariable x)) ∧
      ∀ host x, create ⟨p, registry⟩ host = .error (.noVariable x) →
        ∃ i g j f, p.globals[i]? = some g ∧ x = .glob j ∧ i ≤ j ∧ j < p.globals.length ∧ p.Reaches g.init f ∧
          f.code.Touches (.glob j) := by
  have hblame (host : Host) (x : Var) (h : create ⟨p, registry⟩ host = .error (.noVariable x)) :
      ∃ i g j f, p.globals[i]? = some g ∧ x = .glob j ∧ i ≤ j ∧ j < p.globals.length ∧ p.Reaches g.init f ∧
        f.code.Touches (.glob j) := by
    obtain ⟨i, g, hg, hmisses⟩ := create_misses h
    obtain ⟨j, f, hx⟩ := hmisses.blame hr hp hg
    exact ⟨i, g, j, f, hg, hx⟩
  refine ⟨fun i g j hg hj => Script.initializer_touches hr hp hg hj, fun hearlier host x h => ?_, hblame⟩
  obtain ⟨i, g, j, f, hg, -, hle, -, hf, hj⟩ := hblame host x h
  have hlt := hearlier i g f j hg hf hj
  omega

namespace Sample

def hasty : String := "integer a = f(); integer b; integer f() { return b; } default { }"

theorem hasty_refused : ∃ p, Script.compile registry options [] hasty = .ok p ∧
    Machine.create ⟨p, registry⟩ (.named "sample") = .error (.noVariable (.glob 1)) := by
  have hs : hasty.toList = _ := String.toList_ofList
  rw [Script.compile_of_plain hs (by decide +kernel)]
  refine (ok_of_any (P := fun p =>
    match Machine.create ⟨p, registry⟩ (.named "sample") with
    | .ok _ => false
    | .error f => decide (f = .noVariable (.glob 1))) (by decide +kernel)).imp fun p h => ⟨h.1, ?_⟩
  cases hm : Machine.create ⟨p, registry⟩ (.named "sample") with
  | ok m => simp [hm] at h
  | error f => simpa [hm] using h.2

end Sample

/-- The function that reads the second variable is reached from the initializer of the first. -/
theorem Machine.hasty_blames_call :
    Sample.registry.Built ∧
    ∃ p i g f, Script.compile Sample.registry Sample.options [] Sample.hasty = .ok p ∧
      p.globals[i]? = some g ∧ i ≤ 1 ∧
      p.Reaches g.init f ∧ f.code.Touches (.glob 1) ∧ ¬ g.init.Touches (.glob 1) := by
  obtain ⟨p, hp, hrefused⟩ := Sample.hasty_refused
  obtain ⟨hown, -, hblame⟩ := create_missing_variable Sample.registry_built hp
  obtain ⟨i, g, j, f, hg, hx, hle, -, hf, hj⟩ := hblame _ _ hrefused
  cases hx
  refine ⟨Sample.registry_built, p, i, g, f, hp, hg, hle, hf, hj, fun htouches => ?_⟩
  have hlt := hown i g 1 hg htouches
  omega

/-- A compiled script may be refused because a variable is missing. -/
theorem Machine.hasty_misses_variable :
    ∃ p host, Script.compile Sample.registry Sample.options [] Sample.hasty = .ok p ∧
    ∃ x, create ⟨p, Sample.registry⟩ host = .error (.noVariable x) := by
  obtain ⟨p, hp, hrefused⟩ := Sample.hasty_refused
  exact ⟨p, .named "sample", hp, .glob 1, hrefused⟩

end WorldScript
