import WorldScript.Proofs.Script.Typing

/-! # Compiled scripts are well-formed code

What a loader of code would check holds of every chunk of a compiled script: what an instruction names
exists, control never leaves the code, and the height of the stack is known at every position.
-/

namespace WorldScript

variable {τ : Type}

namespace Instr

def pops : Instr τ → Nat
  | .push _ | .load _ | .jump _ | .ret | .changeState _ => 0
  | .store _ | .getMember _ | .storeMember _ _ | .pop | .dup | .unary _ | .cast _ | .convert _ => 1
  | .jumpIfFalse _ | .retValue => 1
  | .binary _ => 2
  | .makeVector => 3
  | .makeRotation => 4
  | .makeList count | .call _ count => count

/-- How many values an instruction puts on the stack, where `returns` says which calls have a value. -/
def pushes (returns : Callee → Bool) : Instr τ → Nat
  | .push _ | .load _ | .getMember _ | .unary _ | .binary _ | .cast _ | .convert _ => 1
  | .makeVector | .makeRotation | .makeList _ => 1
  | .dup => 2
  | .call callee _ => if returns callee then 1 else 0
  | .store _ | .storeMember _ _ | .pop | .jump _ | .jumpIfFalse _ | .ret | .retValue | .changeState _ => 0

def successors (position : Nat) : Instr Nat → List Nat
  | .jump target => [target]
  | .jumpIfFalse target => [position + 1, target]
  | .ret | .retValue | .changeState _ => []
  | _ => [position + 1]

end Instr

def Chunk.code (c : Chunk) : Array (Instr Nat) := c.entries.map Entry.instr

def Chunk.lines (c : Chunk) : Array Nat := c.entries.map Entry.line

def Program.returnsValue (p : Program Chunk) (r : Registry) : Callee → Bool
  | .host id => (r.functions[id]?).any fun f => f.returns.isSome
  | .script index => (p.functions[index]?).any fun f => f.signature.returns.isSome

def Program.HasVar (p : Program Chunk) (c : Chunk) : Var → Prop
  | .loc slot => slot < c.locals.length
  | .glob slot => slot < p.globals.length

def Program.HasCallee (p : Program Chunk) (r : Registry) (count : Nat) : Callee → Prop
  | .host id => ∃ f, r.functions[id]? = some f ∧ count = f.params.length
  | .script index => ∃ f, p.functions[index]? = some f ∧ count = f.signature.params.length

def Program.Knows (p : Program Chunk) (r : Registry) (event : Bool) (c : Chunk) : Instr Nat → Prop
  | .load x | .store x | .storeMember x _ => p.HasVar c x
  | .call callee count => p.HasCallee r count callee
  | .changeState index => event = true ∧ index < p.states.length
  | _ => True

/-- Heights of the stack at every position that agree with what the instructions take and put, along
every way control may go. -/
structure Chunk.Heights (returns : Callee → Bool) (c : Chunk) (height : Nat → Nat) : Prop where
  start : height 0 = 0
  pops_le : ∀ (k : Nat) (i : Instr Nat), c.code[k]? = some i → i.pops ≤ height k
  step : ∀ (k next : Nat) (i : Instr Nat), c.code[k]? = some i → next ∈ i.successors k →
    next < c.code.size ∧ height next = height k - i.pops + i.pushes returns
  targets : ∀ (k t : Nat) (i : Instr Nat), c.code[k]? = some i → i.target? = some t → height t = 0

structure Program.WellFormedChunk (p : Program Chunk) (r : Registry) (event : Bool) (c : Chunk) : Prop where
  lines : c.lines.size = c.code.size
  last : ∃ i, c.code.back? = some i ∧ i.isReturn = true
  targets : ∀ i ∈ c.code, ∀ t, i.target? = some t → t < c.code.size
  known : ∀ i ∈ c.code, p.Knows r event c i
  heights : ∃ height, c.Heights (p.returnsValue r) height

structure Program.WellFormed (r : Registry) (p : Program Chunk) : Prop where
  globals : ∀ g ∈ p.globals, p.WellFormedChunk r false g.init
  functions : ∀ f ∈ p.functions, p.WellFormedChunk r false f.code
  handlers : ∀ s ∈ p.states, ∀ h ∈ s.handlers, p.WellFormedChunk r true h.code

namespace Instr

variable {Γ : Layout} {kind : BodyKind} {returns : Callee → Bool} {S T : List Ty}

/-- The callees of which `returns` says that they have a value are those of the layout. -/
def Agrees (returns : Callee → Bool) (Γ : Layout) : Prop :=
  ∀ callee params result, Γ.calleeTy callee = some (params, result) → returns callee = result.isSome

theorem Fits.pops_le {i : Instr τ} (h : i.Fits Γ kind S T) : i.pops ≤ S.length := by
  cases h <;> simp [pops]

theorem Fits.height {i : Instr τ} (hr : Agrees returns Γ) (h : i.Fits Γ kind S T) :
    T.length = S.length - i.pops + i.pushes returns := by
  cases h with
  | call hc =>
    rename_i U callee params result
    have hreturns := hr _ _ _ hc
    cases result <;> simp [pops, pushes, hreturns]
  | _ => simp [pops, pushes]

/-- Nothing is on the stack after a jump. -/
theorem Fits.after_jump {i : Instr τ} {t : τ} (h : i.Fits Γ kind S T) (ht : i.target? = some t) : T = [] := by
  cases h with
  | jump | jumpIfFalse => rfl
  | _ => simp [target?] at ht

theorem mem_successors {i : Instr Nat} {k next : Nat} (h : next ∈ i.successors k) :
    (next = k + 1 ∧ i.isReturn = false) ∨ i.target? = some next := by
  cases i with
  | jump target => exact .inr (by simpa [successors, target?, eq_comm] using h)
  | jumpIfFalse target =>
    rcases (by simpa [successors] using h : next = k + 1 ∨ next = target) with rfl | rfl
    · exact .inl ⟨rfl, rfl⟩
    · exact .inr rfl
  | ret | retValue | changeState => simp [successors] at h
  | _ => exact .inl ⟨by simpa [successors] using h, rfl⟩

end Instr

namespace Program

variable {p : Program Chunk} {r : Registry} {c : Chunk}

theorem returnsValue_agrees (locals : List Ty) : Instr.Agrees (p.returnsValue r) (p.layout r locals) := by
  intro callee params result hc
  cases callee with
  | host id =>
    obtain ⟨f, hf, he⟩ := Option.map_eq_some_iff.mp hc
    cases he
    have hf : r.functions[id]? = some f := hf
    simp [returnsValue, hf]
  | script index =>
    obtain ⟨s, hs, he⟩ := Option.map_eq_some_iff.mp hc
    cases he
    obtain ⟨f, hf, rfl⟩ := Option.map_eq_some_iff.mp ((List.getElem?_map ..).symm.trans hs)
    simp [returnsValue, hf]

theorem hasVar_of_varTy {x : Var} {ty : Ty} (h : (p.layout r (c.locals.map Param.ty)).varTy x = some ty) :
    p.HasVar c x := by
  cases x with
  | loc slot => simpa [layout, HasVar] using (List.getElem?_eq_some_iff.mp h).1
  | glob slot => simpa [layout, HasVar] using (List.getElem?_eq_some_iff.mp h).1

theorem hasCallee_of_calleeTy {locals : List Ty} {callee : Callee} {params : List Ty} {returns : Option Ty}
    (h : (p.layout r locals).calleeTy callee = some (params, returns)) :
    p.HasCallee r params.length callee := by
  cases callee with
  | host id =>
    obtain ⟨f, hf, he⟩ := Option.map_eq_some_iff.mp h
    cases he
    exact ⟨f, hf, rfl⟩
  | script index =>
    obtain ⟨s, hs, he⟩ := Option.map_eq_some_iff.mp h
    cases he
    obtain ⟨f, hf, rfl⟩ := Option.map_eq_some_iff.mp ((List.getElem?_map ..).symm.trans hs)
    exact ⟨f, hf, by simp⟩

theorem knows_of_fits {kind : BodyKind} {i : Instr Nat} {S T : List Ty}
    (h : i.Fits (p.layout r (c.locals.map Param.ty)) kind S T) : p.Knows r (decide (kind = .event)) c i := by
  cases h with
  | load hx | store hx | storeMember hx => exact hasVar_of_varTy hx
  | call hc => exact hasCallee_of_calleeTy hc
  | changeState hk hi => exact ⟨decide_eq_true hk, hi⟩
  | _ => trivial

theorem wellFormedChunk_of_wellTyped {kind : BodyKind}
    (h : c.WellTyped (p.layout r (c.locals.map Param.ty)) kind) :
    p.WellFormedChunk r (decide (kind = .event)) c := by
  obtain ⟨T, ht⟩ := h
  have hsize : c.code.size = c.entries.size := by simp [Chunk.code]
  have hentry : ∀ (k : Nat) (i : Instr Nat), c.code[k]? = some i →
      ∃ e, c.entries[k]? = some e ∧ e.instr = i := by
    intro k i hi
    simpa [Chunk.code] using hi
  have hfits : ∀ (k : Nat) (i : Instr Nat), c.code[k]? = some i →
      i.Fits (p.layout r (c.locals.map Param.ty)) kind (T k) (T (k + 1)) := by
    intro k i hi
    obtain ⟨e, he, rfl⟩ := hentry k i hi
    exact ht.fits k e he
  have htarget : ∀ (k t : Nat) (i : Instr Nat), c.code[k]? = some i → i.target? = some t →
      t < c.code.size ∧ T t = [] := by
    intro k t i hi hit
    obtain ⟨e, he, rfl⟩ := hentry k i hi
    rw [hsize]
    exact ht.targets k e t he hit
  -- the last instruction is a return, so what goes on to the next position is not the last
  have hlast : ∃ i, c.code.back? = some i ∧ i.isReturn = true := by
    obtain ⟨e, he, hr⟩ := ht.last
    exact ⟨e.instr, by simp [Chunk.code, he], hr⟩
  have hnext : ∀ (k : Nat) (i : Instr Nat), c.code[k]? = some i → i.isReturn = false →
      k + 1 < c.code.size := by
    intro k i hi hr
    obtain ⟨l, hl, hlr⟩ := hlast
    have hk : k < c.code.size := (Array.getElem?_eq_some_iff.mp hi).1
    by_contra hle
    rw [Array.back?_eq_getElem?, show c.code.size - 1 = k by omega, hi] at hl
    cases hl
    simp [hr] at hlr
  refine ⟨by simp [Chunk.lines, Chunk.code], hlast, ?_, ?_, ?_⟩
  · intro i hi t hit
    obtain ⟨k, hk⟩ := Array.mem_iff_getElem?.mp hi
    exact (htarget k t i hk hit).1
  · intro i hi
    obtain ⟨k, hk⟩ := Array.mem_iff_getElem?.mp hi
    exact knows_of_fits (hfits k i hk)
  · refine ⟨fun k => (T k).length, by simp [ht.start], ?_, ?_, ?_⟩
    · intro k i hi
      exact (hfits k i hi).pops_le
    · intro k next i hi hmem
      have hheight := (hfits k i hi).height (returnsValue_agrees _)
      rcases Instr.mem_successors hmem with ⟨rfl, hr⟩ | hit
      · exact ⟨hnext k i hi hr, hheight⟩
      · obtain ⟨hlt, hempty⟩ := htarget k next i hi hit
        rw [(hfits k i hi).after_jump hit] at hheight
        exact ⟨hlt, by simpa only [hempty] using hheight⟩
    · intro k t i hi hit
      simp [(htarget k t i hi hit).2]

theorem WellTyped.wellFormed (h : p.WellTyped r) : p.WellFormed r := by
  refine ⟨?_, ?_, ?_⟩
  · intro g hg
    exact wellFormedChunk_of_wellTyped (h.globals g hg).2
  · intro f hf
    exact wellFormedChunk_of_wellTyped (h.functions f hf).2
  · intro s hs f hf
    exact wellFormedChunk_of_wellTyped (h.handlers s hs f hf).2

end Program

/-- Every chunk of a compiled script is well-formed code. -/
theorem Script.compile_wellFormed {registry : Registry} (hr : registry.Built) {options : CompileOptions}
    {replacements : Replacements} {source : String} {p : Program Chunk}
    (h : compile registry options replacements source = .ok p) : p.WellFormed registry :=
  (compile_wellTyped hr h).wellFormed

theorem Script.sample_wellFormed : Sample.registry.Built ∧
    ∃ p, compile Sample.registry Sample.options [] Sample.source = .ok p ∧ p.WellFormed Sample.registry := by
  obtain ⟨p, hp⟩ := Sample.source_compiles
  exact ⟨Sample.registry_built, p, hp, compile_wellFormed Sample.registry_built hp⟩

end WorldScript
