import WorldScript.Expr.Coding
import WorldScript.Expr.Elaborate
import WorldScript.Proofs.Outcome

/-! # Renaming host functions

Two registries may number the same functions differently.  Elaboration and coding look at the
functions that may be seen and not at their numbers, so that other numbers make for other calls and for
nothing else.
-/

namespace WorldScript

section Results

variable {ε α β γ : Type}

theorem bind_of_map {x : Except ε α} {k : α → β} {f : β → Except ε γ} :
    x.map k >>= f = x >>= fun a => f (k a) := by
  cases x <;> rfl

/-- Two computations whose steps agree. -/
theorem bind_congr_map {x : Except ε α} {f : α → Except ε β} {f' : α → Except ε γ} {g : β → γ}
    (h : ∀ a, x = .ok a → f' a = (f a).map g) : x >>= f' = (x >>= f).map g := by
  cases x with
  | error e => rfl
  | ok a => exact h a rfl

end Results

def Callee.renamed (ρ : Nat → Nat) : Callee → Callee
  | .host id => .host (ρ id)
  | .script index => .script index

def Instr.renamed {τ : Type} (ρ : Nat → Nat) : Instr τ → Instr τ
  | .call callee n => .call (callee.renamed ρ) n
  | i => i

mutual

def Expr.renamed (ρ : Nat → Nat) : Expr → Expr
  | .literal info v => .literal info v
  | .load info v => .load info v
  | .member info base a => .member info (base.renamed ρ) a
  | .unary info op e => .unary info op (e.renamed ρ)
  | .binary info op l r => .binary info op (l.renamed ρ) (r.renamed ρ)
  | .assign info place op e => .assign info place op (e.renamed ρ)
  | .step info place s first => .step info place s first
  | .cast info target e => .cast info target (e.renamed ρ)
  | .convert info target e => .convert info target (e.renamed ρ)
  | .call info callee args => .call info (callee.renamed ρ) (Expr.allRenamed ρ args)
  | .vector info parts => .vector info (Expr.allRenamed ρ parts)
  | .rotation info parts => .rotation info (Expr.allRenamed ρ parts)
  | .list info items => .list info (Expr.allRenamed ρ items)
  | .label info name => .label info name
termination_by structural e => e

def Expr.allRenamed (ρ : Nat → Nat) : List Expr → List Expr
  | [] => []
  | e :: rest => e.renamed ρ :: Expr.allRenamed ρ rest
termination_by structural es => es

end

variable {ρ : Nat → Nat}

namespace Expr

theorem allRenamed_eq_map (es : List Expr) : allRenamed ρ es = es.map (renamed ρ) := by
  induction es with
  | nil => rfl
  | cons e rest ih => rw [allRenamed, ih, List.map_cons]

@[simp] theorem renamed_info (e : Expr) : (e.renamed ρ).info = e.info := by cases e <;> rfl

@[simp] theorem renamed_ty (e : Expr) : (e.renamed ρ).ty = e.ty := by rw [ty, renamed_info, ty]

@[simp] theorem renamed_line (e : Expr) : (e.renamed ρ).line = e.line := by rw [line, renamed_info, line]

@[simp] theorem renamed_place? (e : Expr) : (e.renamed ρ).place? = e.place? := by
  cases e with
  | member info base a => cases base <;> rfl
  | literal | load | unary | binary | assign | step | cast | convert | call | vector | rotation
  | list | label =>
    rfl

@[simp] theorem renamed_negated? (e : Expr) : (e.renamed ρ).negated? = e.negated? := by cases e <;> rfl

@[simp] theorem renamed_valueTy (e : Expr) : (e.renamed ρ).valueTy = e.valueTy := by
  unfold valueTy
  rw [renamed_ty, renamed_line]
  cases e <;> rfl

theorem renamed_convertedTo (e : Expr) (target : Ty) :
    (e.convertedTo target).renamed ρ = (e.renamed ρ).convertedTo target := by
  unfold convertedTo
  rw [renamed_ty, renamed_line]
  split <;> rfl

theorem ofUnary_renamed (op : UnaryOp) (e : Expr) (line : Nat) :
    ofUnary op (e.renamed ρ) line = (ofUnary op e line).map (renamed ρ) := by
  unfold ofUnary
  rw [renamed_valueTy, renamed_negated?]
  refine bind_congr_map fun ty _ => ?_
  split
  · rfl
  · split <;> rfl

theorem ofBinary_renamed (op : BinaryOp) (l r : Expr) (line : Nat) :
    ofBinary op (l.renamed ρ) (r.renamed ρ) line = (ofBinary op l r line).map (renamed ρ) := by
  unfold ofBinary
  rw [renamed_valueTy, renamed_valueTy]
  exact bind_congr_map fun _ _ => bind_congr_map fun _ _ => bind_congr_map fun _ _ => rfl

theorem ofAssign_renamed (assignment : Assignment) (target value : Expr) (line : Nat) :
    ofAssign assignment (target.renamed ρ) (value.renamed ρ) line =
      (ofAssign assignment target value line).map (renamed ρ) := by
  unfold ofAssign
  rw [renamed_place?]
  split
  · rfl
  · rw [renamed_valueTy, renamed_valueTy]
    refine bind_congr_map fun ty _ => bind_congr_map fun found _ => ?_
    obtain ⟨op⟩ := assignment
    cases op with
    | none =>
      change (if ty.accepts found = true then _ else _) = Except.map _ (if ty.accepts found = true
        then _ else _)
      split
      · exact congrArg (fun e => Except.ok (Expr.assign _ _ _ e)) (renamed_convertedTo value ty).symm
      · rfl
    | some op =>
      refine bind_congr_map fun stored _ => ?_
      change (if ty.accepts stored = true then _ else _) = Except.map _ (if ty.accepts stored = true
        then _ else _)
      split <;> rfl

theorem ofStep_renamed (s : Step) (first : Bool) (e : Expr) (line : Nat) :
    ofStep s first (e.renamed ρ) line = (ofStep s first e line).map (renamed ρ) := by
  unfold ofStep
  rw [renamed_place?]
  split
  · rfl
  · rw [renamed_valueTy]
    refine bind_congr_map fun ty _ => ?_
    split <;> rfl

theorem ofMember_renamed (base : Expr) (name : String) (line : Nat) :
    ofMember (base.renamed ρ) name line = (ofMember base name line).map (renamed ρ) := by
  unfold ofMember
  rw [renamed_valueTy]
  refine bind_congr_map fun ty _ => ?_
  split <;> rfl

theorem ofCast_renamed (target : Ty) (e : Expr) (line : Nat) :
    ofCast target (e.renamed ρ) line = (ofCast target e line).map (renamed ρ) := by
  unfold ofCast
  rw [renamed_valueTy]
  refine bind_congr_map fun ty _ => ?_
  split <;> rfl

theorem ofPart_renamed (e : Expr) : ofPart (e.renamed ρ) = (ofPart e).map (renamed ρ) := by
  unfold ofPart
  rw [renamed_valueTy, renamed_line]
  refine bind_congr_map fun ty _ => ?_
  split
  · exact congrArg Except.ok (renamed_convertedTo e .float).symm
  · rfl

theorem ofParts_renamed (parts : List Expr) (line : Nat) :
    ofParts (parts.map (renamed ρ)) line = (ofParts parts line).map (renamed ρ) := by
  unfold ofParts
  rw [List.length_map]
  split
  · simp [Except.map, renamed, allRenamed_eq_map]
  · simp [Except.map, renamed, allRenamed_eq_map]
  · rfl

theorem checkItems_renamed (items : List Expr) : checkItems (items.map (renamed ρ)) = checkItems items := by
  induction items with
  | nil => rfl
  | cons e rest ih =>
    rw [List.map_cons, checkItems, checkItems, renamed_valueTy, renamed_line, ih]

theorem ofItems_renamed (items : List Expr) (line : Nat) :
    ofItems (items.map (renamed ρ)) line = (ofItems items line).map (renamed ρ) := by
  unfold ofItems
  rw [checkItems_renamed]
  refine bind_congr_map fun _ _ => ?_
  simp [pure, Except.pure, Except.map, renamed, allRenamed_eq_map]

theorem convertedArgs_renamed (name : String) (line position : Nat) (args : List (Expr × Ty))
    (params : List Param) :
    convertedArgs name line position (args.map fun a => (a.1.renamed ρ, a.2)) params =
      (convertedArgs name line position args params).map (List.map (renamed ρ)) := by
  induction args generalizing position params with
  | nil => cases params <;> rfl
  | cons a rest ih =>
    cases params with
    | nil => rfl
    | cons param params =>
      rw [List.map_cons, convertedArgs, convertedArgs]
      split
      · rw [ih]
        rw [bind_of_map]
        refine bind_congr_map fun converted _ => ?_
        exact congrArg (fun e => Except.ok (e :: _)) (renamed_convertedTo a.1 param.ty).symm
      · rfl

end Expr

def HostFunction.renumbered (ρ : Nat → Nat) (f : HostFunction) : HostFunction := { f with id := ρ f.id }

/-- Names stand for the same in two environments, but for the numbers of host functions. -/
structure Env.Matches (ρ : Nat → Nat) (env other : Env) : Prop where
  names : other.names = env.names
  constants :
    ∀ name, other.registry.constant? name other.visibility = env.registry.constant? name env.visibility
  overloads : ∀ name, other.registry.overloads name other.visibility =
    (env.registry.overloads name env.visibility).map (HostFunction.renumbered ρ)

namespace Env

variable {env other : Env}

theorem nameExpr_renamed (h : env.Matches ρ other) (name : String) (line : Nat) :
    other.nameExpr name line = (env.nameExpr name line).map (Expr.renamed ρ) := by
  have hhas :
      other.registry.hasFunction name other.visibility = env.registry.hasFunction name env.visibility := by
    simp [Registry.hasFunction, h.overloads]
  unfold nameExpr
  rw [h.names, h.constants, hhas]
  split
  · rfl
  · split
    · rfl
    · split <;> rfl

/-- Which overload is chosen does not depend on numbers of functions. -/
theorem overload_renamed (h : env.Matches ρ other) (name : String) (types : List Ty) (line : Nat) :
    other.overload name types line = (env.overload name types line).map (HostFunction.renumbered ρ) := by
  -- candidates are told apart by their parameters, and messages show signatures, not numbers
  unfold overload
  rw [h.overloads]
  generalize env.registry.overloads name env.visibility = fs
  have hfind : (fs.map (HostFunction.renumbered ρ)).find? (fun f => decide (f.params = types)) =
      (fs.find? fun f => decide (f.params = types)).map (HostFunction.renumbered ρ) := by
    rw [List.find?_map]
    rfl
  have hfilter : (fs.map (HostFunction.renumbered ρ)).filter (reaches types) =
      (fs.filter (reaches types)).map (HostFunction.renumbered ρ) := by
    rw [List.filter_map]
    rfl
  have hsignatures (gs : List HostFunction) :
      (gs.map (HostFunction.renumbered ρ)).map HostFunction.signature = gs.map HostFunction.signature := by
    rw [List.map_map]
    rfl
  simp only [List.isEmpty_map, hfind, hfilter, hsignatures]
  split
  · rfl
  · cases fs.find? fun f => decide (f.params = types) with
    | some f => rfl
    | none =>
      rcases fs.filter (reaches types) with _ | ⟨only, _ | ⟨more, rest⟩⟩
      · rfl
      · rfl
      · exact congrArg (fun s =>
          Except.error (Diagnostic.semantic line (Semantic.ambiguousCall name types s)))
          (hsignatures (only :: more :: rest))

theorem scriptCall_renamed (signature : Signature) (index : Nat) (args : List (Expr × Ty)) (line : Nat) :
    scriptCall signature index (args.map fun a => (a.1.renamed ρ, a.2)) line =
      (scriptCall signature index args line).map (Expr.renamed ρ) := by
  unfold scriptCall
  rw [List.length_map]
  split
  · rw [Expr.convertedArgs_renamed, bind_of_map]
    refine bind_congr_map fun converted _ => ?_
    simp [pure, Except.pure, Except.map, Expr.renamed, Expr.allRenamed_eq_map, Callee.renamed]
  · rfl

theorem hostCall_renamed (h : env.Matches ρ other) (name : String) (args : List (Expr × Ty)) (line : Nat) :
    other.hostCall name (args.map fun a => (a.1.renamed ρ, a.2)) line =
      (env.hostCall name args line).map (Expr.renamed ρ) := by
  unfold hostCall
  have htypes : (args.map fun a => (a.1.renamed ρ, a.2)).map Prod.snd = args.map Prod.snd := by
    rw [List.map_map]
    rfl
  rw [htypes, overload_renamed h, bind_of_map]
  refine bind_congr_map fun f _ => ?_
  have hargs : ((args.map fun a => (a.1.renamed ρ, a.2)).zip f.params).map (fun p => p.1.1.convertedTo p.2) =
      ((args.zip f.params).map fun p => p.1.1.convertedTo p.2).map (Expr.renamed ρ) := by
    rw [List.zip_map_left, List.map_map, List.map_map]
    refine List.map_congr_left fun p _ => ?_
    exact (Expr.renamed_convertedTo p.1.1 p.2).symm
  change Except.ok _ = Except.ok _
  rw [Expr.renamed, Expr.allRenamed_eq_map, ← hargs]
  rfl

theorem callExpr_renamed (h : env.Matches ρ other) (name : String) (args : List Expr) (line : Nat) :
    other.callExpr name (args.map (Expr.renamed ρ)) line =
      (env.callExpr name args line).map (Expr.renamed ρ) := by
  have htypes : (args.map (Expr.renamed ρ)).mapM Expr.valueTy = args.mapM Expr.valueTy := by
    induction args with
    | nil => rfl
    | cons e rest ih => rw [List.map_cons, List.mapM_cons, List.mapM_cons, Expr.renamed_valueTy, ih]
  unfold callExpr
  rw [htypes, h.names]
  refine bind_congr_map fun types _ => ?_
  have hzip : (args.map (Expr.renamed ρ)).zip types = (args.zip types).map fun a => (a.1.renamed ρ, a.2) :=
    List.zip_map_left
  rw [hzip]
  split
  · split
    · exact scriptCall_renamed _ _ _ _
    · rfl
  · exact hostCall_renamed h _ _ _

mutual

/-- Elaboration differs by the numbers of host functions only. -/
theorem elaborate_renamed (h : env.Matches ρ other) (t : Term) :
    other.elaborate t = (env.elaborate t).map (Expr.renamed ρ) := by
  cases t with
  | literal v line => rfl
  | name name line => exact nameExpr_renamed h name line
  | call name args line =>
    rw [elaborate, elaborate, elaborateAll_renamed h args, bind_of_map]
    exact bind_congr_map fun es _ => callExpr_renamed h name es line
  | list items line =>
    rw [elaborate, elaborate, elaborateAll_renamed h items, bind_of_map]
    exact bind_congr_map fun es _ => Expr.ofItems_renamed es line
  | angle parts line =>
    rw [elaborate, elaborate, elaborateParts_renamed h parts, bind_of_map]
    exact bind_congr_map fun es _ => Expr.ofParts_renamed es line
  | cast target t line =>
    rw [elaborate, elaborate, elaborate_renamed h t, bind_of_map]
    exact bind_congr_map fun e _ => Expr.ofCast_renamed target e line
  | label name line => rfl
  | unary op t line =>
    rw [elaborate, elaborate, elaborate_renamed h t, bind_of_map]
    exact bind_congr_map fun e _ => Expr.ofUnary_renamed op e line
  | step s first t line =>
    rw [elaborate, elaborate, elaborate_renamed h t, bind_of_map]
    exact bind_congr_map fun e _ => Expr.ofStep_renamed s first e line
  | member t name line =>
    rw [elaborate, elaborate, elaborate_renamed h t, bind_of_map]
    exact bind_congr_map fun e _ => Expr.ofMember_renamed e name line
  | binary op l r line =>
    rw [elaborate, elaborate, elaborate_renamed h l, bind_of_map]
    refine bind_congr_map fun e _ => ?_
    rw [elaborate_renamed h r, bind_of_map]
    exact bind_congr_map fun e' _ => Expr.ofBinary_renamed op e e' line
  | assign assignment l r line =>
    rw [elaborate, elaborate, elaborate_renamed h l, bind_of_map]
    refine bind_congr_map fun e _ => ?_
    rw [elaborate_renamed h r, bind_of_map]
    exact bind_congr_map fun e' _ => Expr.ofAssign_renamed assignment e e' line
  | broken d => rfl
  | brokenAfter t d =>
    rw [elaborate, elaborate, elaborate_renamed h t, bind_of_map]
    exact bind_congr_map fun _ _ => rfl
termination_by structural t

theorem elaborateAll_renamed (h : env.Matches ρ other) (ts : List Term) :
    other.elaborateAll ts = (env.elaborateAll ts).map (List.map (Expr.renamed ρ)) := by
  cases ts with
  | nil => rfl
  | cons t rest =>
    rw [elaborateAll, elaborateAll, elaborate_renamed h t, bind_of_map]
    refine bind_congr_map fun e _ => ?_
    rw [elaborateAll_renamed h rest, bind_of_map]
    exact bind_congr_map fun es _ => rfl
termination_by structural ts

theorem elaborateParts_renamed (h : env.Matches ρ other) (ts : List Term) :
    other.elaborateParts ts = (env.elaborateParts ts).map (List.map (Expr.renamed ρ)) := by
  cases ts with
  | nil => rfl
  | cons t rest =>
    rw [elaborateParts, elaborateParts, elaborate_renamed h t, bind_of_map]
    refine bind_congr_map fun e _ => ?_
    rw [Expr.ofPart_renamed, bind_of_map]
    refine bind_congr_map fun part _ => ?_
    rw [elaborateParts_renamed h rest, bind_of_map]
    exact bind_congr_map fun es _ => rfl
termination_by structural ts

end

end Env

namespace Expr

theorem loadCode_renamed (place : Place) : place.loadCode.map (Instr.renamed ρ) = place.loadCode := by
  cases place <;> rfl

theorem storeCode_renamed (place : Place) : place.storeCode.map (Instr.renamed ρ) = place.storeCode := by
  cases place <;> rfl

theorem dupIf_renamed (keep : Bool) : (dupIf keep).map (Instr.renamed ρ) = dupIf keep := by cases keep <;> rfl

theorem stepCode_renamed (info : Info) (place : Place) (s : Step) (first keep : Bool) :
    (stepCode info place s first keep).map (List.map (Instr.renamed ρ)) = stepCode info place s
      first keep := by
  refine (bind_congr_map fun ty _ => ?_).symm
  split
  · rfl
  · simp only [pure, Except.pure, Except.map, List.map_append, loadCode_renamed, storeCode_renamed,
      dupIf_renamed]
    rfl

theorem compoundCode_renamed (info : Info) (op : BinaryOp) (target found : Ty) :
    (compoundCode info op target found).map (List.map (Instr.renamed ρ)) = compoundCode info op
      target found := by
  refine (bind_congr_map fun result _ => ?_).symm
  split <;> rfl

theorem assignCode_renamed (info : Info) (place : Place) (op : Option BinaryOp) (value : Expr)
    (code : Except Diagnostic (List (Instr Label))) (keep : Bool) :
    assignCode info place op (value.renamed ρ) (code.map (List.map (Instr.renamed ρ))) keep =
      (assignCode info place op value code keep).map (List.map (Instr.renamed ρ)) := by
  unfold assignCode
  refine bind_congr_map fun target _ => ?_
  cases op with
  | none =>
    dsimp only
    rw [bind_of_map]
    refine bind_congr_map fun code _ => ?_
    simp only [pure, Except.pure, Except.map, List.map_append, storeCode_renamed, dupIf_renamed]
  | some op =>
    dsimp only
    rw [renamed_ty, renamed_line]
    split
    · rfl
    · rw [bind_of_map]
      refine bind_congr_map fun code _ => ?_
      conv =>
        lhs
        rw [← compoundCode_renamed (ρ := ρ), bind_of_map]
      refine bind_congr_map fun compound _ => ?_
      simp only [pure, Except.pure, Except.map, List.map_append, loadCode_renamed, storeCode_renamed,
        dupIf_renamed]

/-- One more instruction after some code. -/
theorem snoc_renamed {r : Except Diagnostic (List (Instr Label))} {i j : Instr Label}
    (hij : i.renamed ρ = j) :
    (r.map (List.map (Instr.renamed ρ)) >>= fun code => pure (code ++ [j])) =
      (r >>= fun code => pure (code ++ [i])).map (List.map (Instr.renamed ρ)) := by
  rw [bind_of_map]
  refine bind_congr_map fun code _ => ?_
  simp [pure, Except.pure, Except.map, hij]

mutual

/-- Other numbers of functions show in the calls of the code and nowhere else. -/
theorem valueCode_renamed (e : Expr) :
    (e.renamed ρ).valueCode = e.valueCode.map (List.map (Instr.renamed ρ)) := by
  cases e with
  | literal info v => rfl
  | load info v => rfl
  | member info base a =>
    rw [renamed, valueCode, valueCode, valueCode_renamed base]
    exact snoc_renamed rfl
  | unary info op e =>
    rw [renamed, valueCode, valueCode, valueCode_renamed e]
    exact snoc_renamed rfl
  | binary info op l r =>
    rw [renamed, valueCode, valueCode, valueCode_renamed l, bind_of_map]
    refine bind_congr_map fun lcode _ => ?_
    rw [valueCode_renamed r, bind_of_map]
    refine bind_congr_map fun rcode _ => ?_
    simp only [pure, Except.pure, Except.map, List.map_append]
    rfl
  | assign info place op value =>
    rw [renamed, valueCode, valueCode, valueCode_renamed value, assignCode_renamed]
  | step info place s first => exact (stepCode_renamed _ _ _ _ _).symm
  | cast info target e =>
    rw [renamed, valueCode, valueCode, valueCode_renamed e]
    exact snoc_renamed rfl
  | convert info target e =>
    rw [renamed, valueCode, valueCode, valueCode_renamed e]
    exact snoc_renamed rfl
  | call info callee args =>
    rw [renamed, valueCode, valueCode, valuesCode_renamed args, allRenamed_eq_map, List.length_map]
    split
    · rfl
    · exact snoc_renamed rfl
  | vector info parts =>
    rw [renamed, valueCode, valueCode, valuesCode_renamed parts]
    exact snoc_renamed rfl
  | rotation info parts =>
    rw [renamed, valueCode, valueCode, valuesCode_renamed parts]
    exact snoc_renamed rfl
  | list info items =>
    rw [renamed, valueCode, valueCode, valuesCode_renamed items, allRenamed_eq_map, List.length_map]
    exact snoc_renamed rfl
  | label info name => rfl
termination_by structural e

theorem valuesCode_renamed (es : List Expr) :
    valuesCode (allRenamed ρ es) = (valuesCode es).map (List.map (Instr.renamed ρ)) := by
  cases es with
  | nil => rfl
  | cons e rest =>
    rw [allRenamed, valuesCode, valuesCode, valueCode_renamed e, bind_of_map]
    refine bind_congr_map fun code _ => ?_
    rw [valuesCode_renamed rest, bind_of_map]
    refine bind_congr_map fun others _ => ?_
    simp only [pure, Except.pure, Except.map, List.map_append]
termination_by structural es

end

/-- The code of an effect differs by the numbers of host functions only. -/
theorem effectCode_renamed (e : Expr) :
    (e.renamed ρ).effectCode = e.effectCode.map (List.map (Instr.renamed ρ)) := by
  have hpop (e : Expr) : ((e.renamed ρ).valueCode >>= fun code => pure (code ++ [.pop])) =
      (e.valueCode >>= fun code => pure (code ++ [.pop])).map (List.map (Instr.renamed ρ)) := by
    rw [valueCode_renamed]
    exact snoc_renamed rfl
  cases e with
  | assign info place op value =>
    rw [renamed, effectCode, effectCode, valueCode_renamed value, assignCode_renamed]
  | step info place s first => exact (stepCode_renamed _ _ _ _ _).symm
  | call info callee args =>
    rw [renamed, effectCode, effectCode, valuesCode_renamed args, allRenamed_eq_map,
      List.length_map, bind_of_map]
    refine bind_congr_map fun code _ => ?_
    simp only [pure, Except.pure, Except.map, List.map_append]
    split <;> rfl
  | label info name => rfl
  | literal info v => exact hpop (.literal info v)
  | load info v => exact hpop (.load info v)
  | member info base a => exact hpop (.member info base a)
  | unary info op e => exact hpop (.unary info op e)
  | binary info op l r => exact hpop (.binary info op l r)
  | cast info target e => exact hpop (.cast info target e)
  | convert info target e => exact hpop (.convert info target e)
  | vector info parts => exact hpop (.vector info parts)
  | rotation info parts => exact hpop (.rotation info parts)
  | list info items => exact hpop (.list info items)

theorem initializerCode_renamed (init : Option Expr) (ty : Ty) :
    initializerCode (init.map (renamed ρ))
      ty = (initializerCode init ty).map (List.map (Instr.renamed ρ)) := by
  cases init with
  | none => rfl
  | some e =>
    change ((e.renamed ρ).valueCode >>= fun code => pure (code ++ [.retValue])) = _
    rw [valueCode_renamed]
    exact snoc_renamed rfl

end Expr

theorem Env.Matches.refl (env : Env) : env.Matches id env :=
  ⟨rfl, fun _ => rfl, fun _ => (List.map_id _).symm⟩

end WorldScript
