import WorldScript.Proofs.Script.WellFormed

/-! # What initializers mention

The initializer of a variable sees the variables before it and no others.  To say so of its code, the
names are cut off after those variables: elaboration cannot tell the difference, and what is typed
against the shorter list mentions nothing beyond it.
-/

namespace WorldScript

def Names.upTo (n : Names) (count : Nat) : Names := { n with globals := n.globals.take count }

theorem Names.upTo_lookup? (n : Names) (count : Nat) (name : String) :
    ((n.upTo count).beginBody.showGlobals count).lookup? name =
      (n.beginBody.showGlobals count).lookup? name := by
  simp only [lookup?, localSlot?, global?, beginBody, showGlobals, upTo, List.findSome?_nil,
    List.findIdx?_take,
    List.length_take]
  cases n.globals.findIdx? (·.name = name) with
  | none => rfl
  | some i =>
    by_cases hi : i < count
    · simp only [Option.bind_some, Option.guard, hi, decide_true, ↓reduceIte, Nat.min_self_assoc,
        List.getElem?_take_of_lt]
      rfl
    · have hmin : ¬ i < min count n.globals.length := by omega
      simp [Option.guard, hi, hmin]

namespace Env

variable {env other : Env}

mutual

/-- A term is elaborated by what names and calls stand for, and by nothing else. -/
theorem elaborate_congr (hn : other.nameExpr = env.nameExpr) (hc : other.callExpr = env.callExpr) (t : Term) :
    other.elaborate t = env.elaborate t := by
  cases t with
  | literal v line => rfl
  | name name line => rw [elaborate, elaborate, hn]
  | call name args line => rw [elaborate, elaborate, elaborateAll_congr hn hc args, hc]
  | list items line => rw [elaborate, elaborate, elaborateAll_congr hn hc items]
  | angle parts line => rw [elaborate, elaborate, elaborateParts_congr hn hc parts]
  | cast target t line => rw [elaborate, elaborate, elaborate_congr hn hc t]
  | label name line => rfl
  | unary op t line => rw [elaborate, elaborate, elaborate_congr hn hc t]
  | step s first t line => rw [elaborate, elaborate, elaborate_congr hn hc t]
  | member t name line => rw [elaborate, elaborate, elaborate_congr hn hc t]
  | binary op l r line => rw [elaborate, elaborate, elaborate_congr hn hc l, elaborate_congr hn hc r]
  | assign assignment l r line => rw [elaborate, elaborate, elaborate_congr hn hc l, elaborate_congr hn hc r]
  | broken d => rfl
  | brokenAfter t d => rw [elaborate, elaborate, elaborate_congr hn hc t]
termination_by structural t

theorem elaborateAll_congr (hn : other.nameExpr = env.nameExpr) (hc : other.callExpr = env.callExpr)
    (ts : List Term) : other.elaborateAll ts = env.elaborateAll ts := by
  cases ts with
  | nil => rfl
  | cons t rest => rw [elaborateAll, elaborateAll, elaborate_congr hn hc t, elaborateAll_congr hn hc rest]
termination_by structural ts

theorem elaborateParts_congr (hn : other.nameExpr = env.nameExpr) (hc : other.callExpr = env.callExpr)
    (ts : List Term) : other.elaborateParts ts = env.elaborateParts ts := by
  cases ts with
  | nil => rfl
  | cons t rest =>
    rw [elaborateParts, elaborateParts, elaborate_congr hn hc t, elaborateParts_congr hn hc rest]
termination_by structural ts

end

end Env

namespace Script

/-- The initializer of a variable would be the same if there were no variables after those before it. -/
theorem globalSlot_upTo {σ γ : Type} [Backend σ] (g : Generator σ γ) (env : Env) (d : GlobalDecl)
    (slot : Nat) :
    globalSlot g { env with names := env.names.upTo slot } d slot = globalSlot g env d slot := by
  let full : Env := { env with names := env.names.beginBody.showGlobals slot }
  let short : Env := { env with names := (env.names.upTo slot).beginBody.showGlobals slot }
  have hname : short.nameExpr = full.nameExpr := by
    funext name line
    unfold Env.nameExpr
    rw [show short.names.lookup? name = full.names.lookup? name from env.names.upTo_lookup? slot name]
    rfl
  have hcall : short.callExpr = full.callExpr := rfl
  have hinit : initializer? short d = initializer? full d := by
    unfold initializer?
    rw [Env.elaborate_congr hname hcall]
  change (initializer? short d >>= _) = (initializer? full d >>= _)
  rw [hinit]

end Script

def Instr.Touches {τ : Type} (x : Var) : Instr τ → Prop
  | .load y | .store y | .storeMember y _ => y = x
  | _ => False

def Chunk.Touches (c : Chunk) (x : Var) : Prop := ∃ i ∈ c.code, i.Touches x

theorem Instr.Fits.varTy {τ : Type} {Γ : Layout} {kind : BodyKind} {S T : List Ty} {i : Instr τ} {x : Var}
    (h : i.Fits Γ kind S T) (hx : i.Touches x) : ∃ ty, Γ.varTy x = some ty := by
  cases h with
  | load hy | store hy | storeMember hy =>
    cases hx
    exact ⟨_, hy⟩
  | _ => cases hx

theorem Chunk.WellTyped.varTy {Γ : Layout} {kind : BodyKind} {c : Chunk} {x : Var} (h : c.WellTyped Γ kind)
    (hx : c.Touches x) : ∃ ty, Γ.varTy x = some ty := by
  obtain ⟨T, hT⟩ := h
  obtain ⟨i, hi, hix⟩ := hx
  obtain ⟨e, he, rfl⟩ := Array.mem_map.mp hi
  obtain ⟨k, hk⟩ := Array.mem_iff_getElem?.mp he
  exact (hT.fits k e hk).varTy hix

/-- The code of an initializer mentions variables before its own only. -/
theorem Script.initializer_touches {registry : Registry} (hr : registry.Built) {options : CompileOptions}
    {replacements : Replacements} {source : String} {p : Program Chunk}
    (h : compile registry options replacements source = .ok p) {i j : Nat} {g : GlobalSlot Chunk}
    (hg : p.globals[i]? = some g) (hj : g.init.Touches (.glob j)) : j < i := by
  obtain ⟨visibility, o, -, hp⟩ := compile_codeOf h
  obtain ⟨-, hget⟩ := mapM_getElem? hp.globals
  obtain ⟨⟨d, slot⟩, hd, hslot⟩ := hget i g hg
  obtain ⟨rfl, -⟩ : slot = i ∧ o.globals[i]? = some d := by
    rw [List.getElem?_zipIdx] at hd
    obtain ⟨a, ha, hpair⟩ := Option.map_eq_some_iff.mp hd
    cases hpair
    exact ⟨by omega, ha⟩
  rw [← globalSlot_upTo] at hslot
  obtain ⟨-, -, htyped⟩ := globalSlot_wellTyped hr.numbered hslot
  obtain ⟨ty, hty⟩ := htyped.varTy hj
  have hlt := (List.getElem?_eq_some_iff.mp hty).1
  change j < ((o.names.globals.take slot).map Param.ty).length at hlt
  rw [List.length_map, List.length_take] at hlt
  omega

end WorldScript
