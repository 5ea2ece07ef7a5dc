import WorldScript.Proofs.Blame
import WorldScript.Proofs.Code.Assembly
import WorldScript.Proofs.Term.Leaves

/-! # Words of code

Which values code may push and which host functions it may call.  The code of an expression keeps to a
vocabulary that has the literals of the script and what its names may stand for.  Where an expression
has no code, the script is to blame.
-/

namespace WorldScript

structure Vocabulary where
  value : Value → Prop
  function : Nat → Prop

def Vocabulary.leaves (V : Vocabulary) : LeafSet := ⟨V.value, Diagnostic.BlamesScript⟩

structure Vocabulary.Covers (V : Vocabulary) (r : Registry) (v : Visibility) : Prop where
  constant : ∀ name c, r.constant? name v = some c → V.value (c.value.coerce c.ty)
  function : ∀ name, ∀ f ∈ r.overloads name v, V.function f.id
  negated : ∀ info a b, V.value a → Expr.negated? (.literal info a) = some b → V.value b
  one : ∀ ty a, Ty.one? ty = some a → V.value a
  default : ∀ ty : Ty, V.value ty.defaultValue

def Callee.Within (V : Vocabulary) : Callee → Prop
  | .host id => V.function id
  | .script _ => True

def Instr.Within {τ : Type} (V : Vocabulary) : Instr τ → Prop
  | .push v => V.value v
  | .call callee _ => callee.Within V
  | _ => True

mutual

/-- An expression keeps to a vocabulary, and what it assigns or steps has a type that can be. -/
def Expr.Within (V : Vocabulary) : Expr → Prop
  | .literal _ v => V.value v
  | .load _ _ | .label _ _ => True
  | .member _ e _ | .unary _ _ e | .cast _ _ e | .convert _ _ e => e.Within V
  | .binary _ _ l r => l.Within V ∧ r.Within V
  | .assign info _ _ e => info.ty.isSome = true ∧ e.Within V
  | .step info _ _ _ => ∃ ty, info.ty = some ty ∧ ty.isNumeric = true
  | .call _ callee args => callee.Within V ∧ Expr.AllWithin V args
  | .vector _ es | .rotation _ es | .list _ es => Expr.AllWithin V es
termination_by structural e => e

def Expr.AllWithin (V : Vocabulary) : List Expr → Prop
  | [] => True
  | e :: es => e.Within V ∧ Expr.AllWithin V es
termination_by structural es => es

end

variable {V : Vocabulary}

theorem Expr.allWithin_iff {es : List Expr} : Expr.AllWithin V es ↔ ∀ e ∈ es, e.Within V := by
  induction es with
  | nil => simp [AllWithin]
  | cons e es ih => simp [AllWithin, ih]

namespace Expr

variable {e : Expr} {es : List Expr}

theorem valueTy_yields (e : Expr) : Yields e.valueTy fun ty => e.ty = some ty := by
  unfold valueTy
  split
  · assumption
  · split <;> exact Diagnostic.semantic_blames _ _

theorem convertedTo_within (h : e.Within V) (target : Ty) : (e.convertedTo target).Within V := by
  unfold convertedTo
  split
  · exact h
  · exact h

theorem resultTy_yields (op : BinaryOp) (l r : Ty) (line : Nat) :
    Yields (op.resultTy l r line) fun _ => True := by
  unfold BinaryOp.resultTy
  split
  · trivial
  · exact Diagnostic.semantic_blames _ _

theorem ofUnary_yields {r : Registry} {v : Visibility} (hV : V.Covers r v) {op : UnaryOp} (he : e.Within V)
    (line : Nat) : Yields (ofUnary op e line) (Expr.Within V) := by
  refine (valueTy_yields e).bind fun ty _ => ?_
  split
  · rename_i value hvalue
    split at hvalue
    · cases e with
      | literal info a => exact hV.negated info a value he hvalue
      | load | member | unary | binary | assign | step | cast | convert | call | vector | rotation | list
      | label => cases hvalue
    · cases hvalue
  · split
    · exact he
    · exact Diagnostic.semantic_blames _ _

theorem ofBinary_yields {op : BinaryOp} {l r : Expr} (hl : l.Within V) (hr : r.Within V) (line : Nat) :
    Yields (ofBinary op l r line) (Expr.Within V) :=
  (valueTy_yields l).bind fun _ _ => (valueTy_yields r).bind fun _ _ =>
    (resultTy_yields _ _ _ _).bind fun _ _ => ⟨hl, hr⟩

theorem ofAssign_yields {assignment : Assignment} {target value : Expr} (hv : value.Within V) (line : Nat) :
    Yields (ofAssign assignment target value line) (Expr.Within V) := by
  obtain ⟨op⟩ := assignment
  unfold ofAssign
  split
  · exact Diagnostic.semantic_blames _ _
  · refine (valueTy_yields target).bind fun ty _ => (valueTy_yields value).bind fun found _ => ?_
    cases op with
    | none =>
      change Yields (if ty.accepts found = true then _ else _) _
      split
      · exact ⟨rfl, convertedTo_within hv ty⟩
      · exact Diagnostic.semantic_blames _ _
    | some op =>
      refine (resultTy_yields op ty found line).bind fun stored _ => ?_
      change Yields (if ty.accepts stored = true then _ else _) _
      split
      · exact ⟨rfl, hv⟩
      · exact Diagnostic.semantic_blames _ _

theorem ofStep_yields {s : Step} {first : Bool} (line : Nat) :
    Yields (ofStep s first e line) (Expr.Within V) := by
  unfold ofStep
  split
  · exact Diagnostic.semantic_blames _ _
  · refine (valueTy_yields e).bind fun ty _ => ?_
    split
    · rename_i hn
      exact ⟨ty, rfl, hn⟩
    · exact Diagnostic.semantic_blames _ _

theorem ofMember_yields {base : Expr} (hb : base.Within V) (name : String) (line : Nat) :
    Yields (ofMember base name line) (Expr.Within V) := by
  refine (valueTy_yields base).bind fun ty _ => ?_
  split
  · exact hb
  · exact Diagnostic.semantic_blames _ _

theorem ofCast_yields {target : Ty} (he : e.Within V) (line : Nat) :
    Yields (ofCast target e line) (Expr.Within V) := by
  refine (valueTy_yields e).bind fun ty _ => ?_
  split
  · exact he
  · exact Diagnostic.semantic_blames _ _

theorem ofPart_yields (he : e.Within V) : Yields (ofPart e) (Expr.Within V) := by
  refine (valueTy_yields e).bind fun ty _ => ?_
  split
  · exact convertedTo_within he _
  · exact Diagnostic.semantic_blames _ _

theorem ofParts_yields (hes : AllWithin V es) (line : Nat) : Yields (ofParts es line) (Expr.Within V) := by
  unfold ofParts
  split
  · exact hes
  · exact hes
  · exact Diagnostic.syntactic_blames _ _

theorem checkItems_yields (es : List Expr) : Yields (checkItems es) fun _ => True := by
  induction es with
  | nil => trivial
  | cons e es ih =>
    refine (valueTy_yields e).bind fun ty _ => ?_
    split
    · exact Diagnostic.semantic_blames _ _
    · exact ih

theorem ofItems_yields (hes : AllWithin V es) (line : Nat) : Yields (ofItems es line) (Expr.Within V) :=
  (checkItems_yields es).bind fun _ _ => hes

theorem convertedArgs_yields {name : String} {line : Nat} {args : List (Expr × Ty)} {params : List Param}
    (h : ∀ a ∈ args, a.1.Within V) (position : Nat) :
    Yields (convertedArgs name line position args params) (AllWithin V) := by
  induction args generalizing params position with
  | nil => trivial
  | cons arg args ih =>
    cases params with
    | nil => trivial
    | cons param params =>
      simp only [convertedArgs]
      split
      · refine (ih (fun a ha => h a (List.mem_cons_of_mem _ ha)) (position + 1)).bind fun rest hrest => ?_
        exact ⟨convertedTo_within (h arg List.mem_cons_self) _, hrest⟩
      · exact Diagnostic.semantic_blames _ _

end Expr

namespace Env

variable {env : Env}

theorem nameExpr_yields (hV : V.Covers env.registry env.visibility) (name : String) (line : Nat) :
    Yields (env.nameExpr name line) (Expr.Within V) := by
  unfold nameExpr
  split
  · trivial
  · split
    · rename_i c hc
      exact hV.constant name c hc
    · split <;> exact Diagnostic.semantic_blames _ _

/-- A call means a function that may be seen. -/
theorem overload_yields (name : String) (types : List Ty) (line : Nat) :
    Yields (env.overload name types line) fun f => f ∈ env.registry.overloads name env.visibility := by
  unfold overload
  dsimp only
  split
  · exact Diagnostic.semantic_blames _ _
  · split
    · rename_i f hf
      exact List.mem_of_find?_eq_some hf
    · split
      · rename_i only honly
        exact (List.mem_filter.mp (honly ▸ List.mem_singleton_self only)).1
      · exact Diagnostic.semantic_blames _ _
      · exact Diagnostic.semantic_blames _ _

theorem callExpr_yields (hV : V.Covers env.registry env.visibility) {es : List Expr}
    (hes : Expr.AllWithin V es) (name : String) (line : Nat) :
    Yields (env.callExpr name es line) (Expr.Within V) := by
  refine (Yields.mapM fun e _ => (Expr.valueTy_yields e).mono fun _ _ => trivial).bind fun types _ => ?_
  have hargs : ∀ a ∈ es.zip types, a.1.Within V := by
    rintro ⟨e, ty⟩ ha
    exact Expr.allWithin_iff.mp hes e (List.of_mem_zip ha).1
  split
  · split
    · unfold scriptCall
      split
      · exact (Expr.convertedArgs_yields hargs 1).bind fun args hconverted => ⟨trivial, hconverted⟩
      · exact Diagnostic.semantic_blames _ _
    · exact Diagnostic.semantic_blames _ _
  · refine (overload_yields name _ line).bind fun f hf => ⟨hV.function name f hf, ?_⟩
    rw [Expr.allWithin_iff]
    intro e he
    obtain ⟨⟨arg, ty⟩, hmem, rfl⟩ := List.mem_map.mp he
    exact Expr.convertedTo_within (hargs arg (List.of_mem_zip hmem).1) ty

mutual

/-- What a term of a vocabulary stands for keeps to it. -/
theorem elaborate_yields (hV : V.Covers env.registry env.visibility) (t : Term) (ht : t.All V.leaves) :
    Yields (env.elaborate t) (Expr.Within V) := by
  cases t with
  | literal v line => exact ht
  | name name line => exact nameExpr_yields hV name line
  | label name line => trivial
  | call name args line =>
    exact (elaborateAll_yields hV args ht).bind fun _ hes => callExpr_yields hV hes name line
  | list items line => exact (elaborateAll_yields hV items ht).bind fun _ hes => Expr.ofItems_yields hes line
  | angle parts line =>
    exact (elaborateParts_yields hV parts ht).bind fun _ hes => Expr.ofParts_yields hes line
  | cast target operand line =>
    exact (elaborate_yields hV operand ht).bind fun _ he => Expr.ofCast_yields he line
  | unary op operand line =>
    exact (elaborate_yields hV operand ht).bind fun _ he => Expr.ofUnary_yields hV he line
  | step s first operand line =>
    exact (elaborate_yields hV operand ht).bind fun _ _ => Expr.ofStep_yields line
  | member base name line =>
    exact (elaborate_yields hV base ht).bind fun _ he => Expr.ofMember_yields he name line
  | binary op left right line =>
    exact (elaborate_yields hV left ht.1).bind fun _ hl =>
      (elaborate_yields hV right ht.2).bind fun _ hr => Expr.ofBinary_yields hl hr line
  | assign assignment target value line =>
    exact (elaborate_yields hV target ht.1).bind fun _ _ =>
      (elaborate_yields hV value ht.2).bind fun _ hv => Expr.ofAssign_yields hv line
  | broken problem => exact ht
  | brokenAfter before problem => exact (elaborate_yields hV before ht.1).bind fun _ _ => ht.2

theorem elaborateAll_yields (hV : V.Covers env.registry env.visibility) (ts : List Term)
    (hts : Term.AllOf V.leaves ts) : Yields (env.elaborateAll ts) (Expr.AllWithin V) := by
  cases ts with
  | nil => trivial
  | cons t rest =>
    exact (elaborate_yields hV t hts.1).bind fun _ he =>
      (elaborateAll_yields hV rest hts.2).bind fun _ hrest => ⟨he, hrest⟩

theorem elaborateParts_yields (hV : V.Covers env.registry env.visibility) (ts : List Term)
    (hts : Term.AllOf V.leaves ts) : Yields (env.elaborateParts ts) (Expr.AllWithin V) := by
  cases ts with
  | nil => trivial
  | cons t rest =>
    exact (elaborate_yields hV t hts.1).bind fun _ he => (Expr.ofPart_yields he).bind fun _ hpart =>
      (elaborateParts_yields hV rest hts.2).bind fun _ hrest => ⟨hpart, hrest⟩

end

end Env

def StraightCode (V : Vocabulary) (code : List (Instr Label)) : Prop :=
  ∀ i ∈ code, i.Within V ∧ i.target? = none

namespace StraightCode

variable {code : List (Instr Label)} {i : Instr Label}

theorem nil : StraightCode V [] := by simp [StraightCode]

theorem append {more : List (Instr Label)} (h : StraightCode V code) (hmore : StraightCode V more) :
    StraightCode V (code ++ more) := by
  intro i hi
  rcases List.mem_append.mp hi with hi | hi
  · exact h i hi
  · exact hmore i hi

theorem cons (hi : i.Within V) (ht : i.target? = none) (h : StraightCode V code) :
    StraightCode V (i :: code) := by
  intro j hj
  rcases List.mem_cons.mp hj with rfl | hj
  · exact ⟨hi, ht⟩
  · exact h j hj

theorem one (hi : i.Within V) (ht : i.target? = none) : StraightCode V [i] := cons hi ht nil

theorem dupIf (keep : Bool) : StraightCode V (Expr.dupIf keep) := by
  cases keep
  · exact nil
  · exact one trivial rfl

theorem loadCode (place : Place) : StraightCode V place.loadCode := by
  cases place
  · exact one trivial rfl
  · exact cons trivial rfl (one trivial rfl)

theorem storeCode (place : Place) : StraightCode V place.storeCode := by
  cases place <;> exact one trivial rfl

end StraightCode

namespace Expr

variable {r : Registry} {v : Visibility} {info : Info} {ty : Ty}

theorem targetTy_yields (hty : info.ty = some ty) : Yields (targetTy info) (ty = ·) := by
  simp [targetTy, hty, Yields]

theorem stepCode_yields (hV : V.Covers r v) (hty : info.ty = some ty) (hn : ty.isNumeric = true)
    (place : Place) (s : Step) (first keep : Bool) :
    Yields (stepCode info place s first keep) (StraightCode V) := by
  have hone : ∃ one, ty.one? = some one := by cases ty <;> simp_all [Ty.isNumeric, Ty.one?]
  obtain ⟨one, hone⟩ := hone
  refine (targetTy_yields hty).bind ?_
  rintro _ rfl
  simp only [hone]
  have hadd : StraightCode V [.push one, .binary s.op] :=
    .cons (hV.one ty one hone) rfl (.one trivial rfl)
  exact ((((StraightCode.loadCode place).append (.dupIf _)).append hadd).append (.dupIf _)).append
    (.storeCode place)

theorem compoundCode_yields (info : Info) (op : BinaryOp) (target found : Ty) :
    Yields (compoundCode info op target found) (StraightCode V) := by
  refine (resultTy_yields op target found info.line).bind fun result _ => ?_
  change StraightCode V (if result = target then [.binary op] else [.binary op, .convert target])
  split
  · exact .one trivial rfl
  · exact .cons trivial rfl (.one trivial rfl)

theorem assignCode_yields (hty : info.ty.isSome = true) (place : Place) (op : Option BinaryOp)
    (value : Expr) {code : Except Diagnostic (List (Instr Label))} (hcode : Yields code (StraightCode V))
    (keep : Bool) : Yields (assignCode info place op value code keep) (StraightCode V) := by
  obtain ⟨ty, hty⟩ := Option.isSome_iff_exists.mp hty
  refine (targetTy_yields hty).bind ?_
  rintro _ rfl
  cases op with
  | none => exact hcode.bind fun _ hc => (hc.append (.dupIf _)).append (.storeCode place)
  | some op =>
    dsimp only
    split
    · exact Diagnostic.semantic_blames _ _
    · refine hcode.bind fun _ hc => (compoundCode_yields (V := V) info op ty _).bind fun _ hcompound => ?_
      exact ((((StraightCode.loadCode place).append hc).append hcompound).append (.dupIf _)).append
        (.storeCode place)

mutual

/-- The code for a value keeps to the vocabulary of its expression, and it has no jumps. -/
theorem valueCode_yields (hV : V.Covers r v) (e : Expr) (he : e.Within V) :
    Yields e.valueCode (StraightCode V) := by
  cases e with
  | literal info a => exact .one he rfl
  | load info x => exact .one trivial rfl
  | member info base a => exact (valueCode_yields hV base he).bind fun _ hc => hc.append (.one trivial rfl)
  | unary info op operand =>
    exact (valueCode_yields hV operand he).bind fun _ hc => hc.append (.one trivial rfl)
  | binary info op left right =>
    exact (valueCode_yields hV left he.1).bind fun _ hl => (valueCode_yields hV right he.2).bind fun _ hr =>
      (hl.append hr).append (.one trivial rfl)
  | assign info place op value =>
    exact assignCode_yields he.1 place op value (valueCode_yields hV value he.2) true
  | step info place s first =>
    obtain ⟨ty, hty, hn⟩ := he
    exact stepCode_yields hV hty hn place s first true
  | cast info target operand =>
    exact (valueCode_yields hV operand he).bind fun _ hc => hc.append (.one trivial rfl)
  | convert info target operand =>
    exact (valueCode_yields hV operand he).bind fun _ hc => hc.append (.one trivial rfl)
  | call info callee args =>
    simp only [valueCode]
    split
    · exact Diagnostic.semantic_blames _ _
    · exact (valuesCode_yields hV args he.2).bind fun _ hc => hc.append (.one he.1 rfl)
  | vector info parts => exact (valuesCode_yields hV parts he).bind fun _ hc => hc.append (.one trivial rfl)
  | rotation info parts => exact (valuesCode_yields hV parts he).bind fun _ hc => hc.append (.one trivial rfl)
  | list info items => exact (valuesCode_yields hV items he).bind fun _ hc => hc.append (.one trivial rfl)
  | label info name => exact Diagnostic.semantic_blames _ _

theorem valuesCode_yields (hV : V.Covers r v) (es : List Expr) (hes : AllWithin V es) :
    Yields (valuesCode es) (StraightCode V) := by
  cases es with
  | nil => exact .nil
  | cons e rest =>
    exact (valueCode_yields hV e hes.1).bind fun _ hc => (valuesCode_yields hV rest hes.2).bind fun _ hrest =>
      hc.append hrest

end

theorem effectCode_yields (hV : V.Covers r v) (e : Expr) (he : e.Within V) :
    Yields e.effectCode (StraightCode V) := by
  have hpop : Yields (do return (← e.valueCode) ++ [.pop]) (StraightCode V) :=
    (valueCode_yields hV e he).bind fun _ hc => hc.append (.one trivial rfl)
  cases e with
  | assign info place op value =>
    exact assignCode_yields he.1 place op value (valueCode_yields hV value he.2) false
  | step info place s first =>
    obtain ⟨ty, hty, hn⟩ := he
    exact stepCode_yields hV hty hn place s first false
  | call info callee args =>
    have hcall : StraightCode V [.call callee args.length] := .one he.1 rfl
    refine (valuesCode_yields hV args he.2).bind fun code hc => (hc.append hcall).append ?_
    split
    · exact .one trivial rfl
    · exact .nil
  | label info name => exact Diagnostic.syntactic_blames _ _
  | literal | load | member | unary | binary | cast | convert | vector | rotation | list => exact hpop

theorem initializerCode_yields (hV : V.Covers r v) {init : Option Expr} (hinit : ∀ e ∈ init, e.Within V)
    (ty : Ty) : Yields (initializerCode init ty) (StraightCode V) := by
  cases init with
  | none => exact .cons (hV.default ty) rfl (.one trivial rfl)
  | some e => exact (valueCode_yields hV e (hinit e rfl)).bind fun _ hc => hc.append (.one trivial rfl)

end Expr

end WorldScript
