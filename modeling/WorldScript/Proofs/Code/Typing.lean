import WorldScript.Body
import WorldScript.Proofs.Expr.Typing

/-! # Well-typed code

An instruction takes a stack of typed values to another one.  Code of expressions works on the top of
the stack only; instructions that leave the straight line stand where nothing is left below.
-/

namespace WorldScript

variable {τ : Type} {S T : List Ty} {ty : Ty}

inductive Instr.Fits (Γ : Layout) (kind : BodyKind) : Instr τ → List Ty → List Ty → Prop
  | push {S : List Ty} (v : Value) : Fits Γ kind (.push v) S (v.ty :: S)
  | load {S : List Ty} {x : Var} {ty : Ty} (hx : Γ.varTy x = some ty) :
      Fits Γ kind (.load x) S (ty :: S)
  | store {S : List Ty} {x : Var} {ty : Ty} (hx : Γ.varTy x = some ty) :
      Fits Γ kind (.store x) (ty :: S) S
  | getMember {S : List Ty} {axis : Axis} {ty : Ty} (ha : axis.appliesTo ty = true) :
      Fits Γ kind (.getMember axis) (ty :: S) (.float :: S)
  | storeMember {S : List Ty} {x : Var} {axis : Axis} {ty : Ty} (hx : Γ.varTy x = some ty)
      (ha : axis.appliesTo ty = true) : Fits Γ kind (.storeMember x axis) (.float :: S) S
  | pop {S : List Ty} {ty : Ty} : Fits Γ kind .pop (ty :: S) S
  | dup {S : List Ty} {ty : Ty} : Fits Γ kind .dup (ty :: S) (ty :: ty :: S)
  | unary {S : List Ty} {op : UnaryOp} {ty result : Ty} (hr : op.resultTy? ty = some result) :
      Fits Γ kind (.unary op) (ty :: S) (result :: S)
  | binary {S : List Ty} {op : BinaryOp} {l r result : Ty} (hr : op.resultTy? l r = some result) :
      Fits Γ kind (.binary op) (r :: l :: S) (result :: S)
  | cast {S : List Ty} {target ty : Ty} (hc : target.castableFrom ty = true) :
      Fits Γ kind (.cast target) (ty :: S) (target :: S)
  | convert {S : List Ty} {target ty : Ty} (ha : target.accepts ty = true) :
      Fits Γ kind (.convert target) (ty :: S) (target :: S)
  | makeVector {S : List Ty} : Fits Γ kind .makeVector (List.replicate 3 .float ++ S) (.vector :: S)
  | makeRotation {S : List Ty} : Fits Γ kind .makeRotation (List.replicate 4 .float ++ S) (.rotation :: S)
  | makeList {S items : List Ty} (hi : ∀ ty ∈ items, ty ≠ .list) :
      Fits Γ kind (.makeList items.length) (items.reverse ++ S) (.list :: S)
  | call {S : List Ty} {callee : Callee} {params : List Ty} {returns : Option Ty}
      (hc : Γ.calleeTy callee = some (params, returns)) :
      Fits Γ kind (.call callee params.length) (params.reverse ++ S) (returns.toList ++ S)
  | jump (target : τ) : Fits Γ kind (.jump target) [] []
  | jumpIfFalse {ty : Ty} (target : τ) : Fits Γ kind (.jumpIfFalse target) [ty] []
  | ret (hk : kind.returns = none) : Fits Γ kind .ret [] []
  | retValue {ty : Ty} (hk : kind.returns = some ty) : Fits Γ kind .retValue [ty] []
  | changeState {index : Nat} (hk : kind = .event) (hi : index < Γ.states) :
      Fits Γ kind (.changeState index) [] []

inductive CodeFits (Γ : Layout) (kind : BodyKind) : List (Instr τ) → List Ty → List Ty → Prop
  | nil {S : List Ty} : CodeFits Γ kind [] S S
  | cons {i : Instr τ} {code : List (Instr τ)} {S T U : List Ty} (hi : i.Fits Γ kind S T)
      (hc : CodeFits Γ kind code T U) : CodeFits Γ kind (i :: code) S U

variable {Γ : Layout} {kind : BodyKind}

theorem CodeFits.single {i : Instr τ} (h : i.Fits Γ kind S T) : CodeFits Γ kind [i] S T := .cons h .nil

theorem CodeFits.append {a b : List (Instr τ)} {U : List Ty} (ha : CodeFits Γ kind a S T)
    (hb : CodeFits Γ kind b T U) : CodeFits Γ kind (a ++ b) S U := by
  induction ha with
  | nil => exact hb
  | cons hi _ ih => exact .cons hi (ih hb)

namespace Place

variable {p : Place} {ty : Ty}

theorem loadCode_fits (h : Γ.placeTy p = some ty) (S : List Ty) : CodeFits Γ kind p.loadCode S (ty :: S) := by
  cases p with
  | var x => exact .single (.load h)
  | member x axis =>
    simp only [Layout.placeTy, Option.map_eq_some_iff, Option.filter_eq_some_iff] at h
    obtain ⟨found, ⟨hx, ha⟩, rfl⟩ := h
    exact .cons (.load hx) (.single (.getMember ha))

theorem storeCode_fits (h : Γ.placeTy p = some ty) (S : List Ty) :
    CodeFits Γ kind p.storeCode (ty :: S) S := by
  cases p with
  | var x => exact .single (.store h)
  | member x axis =>
    simp only [Layout.placeTy, Option.map_eq_some_iff, Option.filter_eq_some_iff] at h
    obtain ⟨found, ⟨hx, ha⟩, rfl⟩ := h
    exact .single (.storeMember hx ha)

end Place

/-- One is a value of every number type. -/
theorem Ty.one?_numeric (h : ty.isNumeric = true) : ∃ one, ty.one? = some one ∧ one.ty = ty := by
  cases ty <;> first | exact ⟨_, rfl, rfl⟩ | simp [isNumeric] at h

/-- A step of a number stays in its type. -/
theorem Step.op_resultTy? {s : Step} (h : ty.isNumeric = true) : s.op.resultTy? ty ty = some ty := by
  cases s <;> cases ty <;> first | rfl | simp [Ty.isNumeric] at h

/-- Code was found, and it leaves values of the types `top` on any stack. -/
def Leaves (Γ : Layout) (kind : BodyKind) (r : Except Diagnostic (List (Instr Label))) (top : List Ty) :
    Prop :=
  ∃ code, r = .ok code ∧ ∀ S, CodeFits Γ kind code S (top ++ S)

theorem Leaves.andThen {r : Except Diagnostic (List (Instr Label))} {a b : List Ty}
    {code : List (Instr Label)} (hr : Leaves Γ kind r a)
    (hc : ∀ S, CodeFits Γ kind code (a ++ S) (b ++ S)) :
    Leaves Γ kind (do return (← r) ++ code) b := by
  obtain ⟨first, rfl, hf⟩ := hr
  exact ⟨first ++ code, rfl, fun S => (hf S).append (hc S)⟩

namespace Expr

variable {s : Step} {ty found result : Ty} {line : Nat} {place : Place} {op : BinaryOp}
  {r : Except Diagnostic (List (Instr Label))} {e : Expr}

def kept (keep : Bool) (ty : Ty) : List Ty := if keep then [ty] else []

theorem dupIf_fits (keep : Bool) (ty : Ty) (S : List Ty) :
    CodeFits Γ kind (dupIf keep) (ty :: S) (ty :: (kept keep ty ++ S)) := by
  cases keep with
  | false => exact .nil
  | true => exact .single .dup

theorem stepOp_fits {one : Value} (hn : ty.isNumeric = true) (hty : one.ty = ty) (S : List Ty) :
    CodeFits Γ kind ([.push one, .binary s.op] : List (Instr Label)) (ty :: S) (ty :: S) := by
  refine .cons (.push one) (.single (.binary ?_))
  rw [hty]
  exact Step.op_resultTy? hn

theorem stepCode_leaves (first keep : Bool) (hp : Γ.placeTy place = some ty) (hn : ty.isNumeric = true) :
    Leaves Γ kind (stepCode ⟨some ty, line⟩ place s first keep) (kept keep ty) := by
  obtain ⟨one, hone, hty⟩ := Ty.one?_numeric hn
  refine ⟨place.loadCode ++ dupIf (keep && !first) ++ [.push one, .binary s.op]
    ++ dupIf (keep && first) ++ place.storeCode, ?_, ?_⟩
  · simp only [stepCode, targetTy, bind, Except.bind, hone, pure, Except.pure]
  · intro S
    have hload : CodeFits Γ kind place.loadCode S (ty :: S) := Place.loadCode_fits hp S
    have hkeep : CodeFits Γ kind (dupIf keep) (ty :: S) (ty :: (kept keep ty ++ S)) := dupIf_fits keep ty S
    have hstore : CodeFits Γ kind place.storeCode (ty :: (kept keep ty ++ S)) (kept keep ty ++ S) :=
      Place.storeCode_fits hp _
    cases first with
    | true => simpa [dupIf] using ((hload.append (stepOp_fits hn hty S)).append hkeep).append hstore
    | false => simpa [dupIf] using ((hload.append hkeep).append (stepOp_fits hn hty _)).append hstore

theorem compoundCode_fits {target : Ty} (info : Info) (hr : op.resultTy? target found = some result)
    (ha : target.accepts result = true) :
    ∃ code, compoundCode info op target found = .ok code ∧
      ∀ S, CodeFits Γ kind code (found :: target :: S) (target :: S) := by
  refine ⟨if result = target then [.binary op] else [.binary op, .convert target], ?_, ?_⟩
  · simp only [compoundCode, BinaryOp.resultTy, hr, bind, Except.bind, pure, Except.pure]
  · intro S
    split
    · rename_i he
      exact .single (.binary (he ▸ hr))
    · exact .cons (.binary hr) (.single (.convert ha))

theorem assignCode_leaves (value : Expr) (keep : Bool) (hp : Γ.placeTy place = some ty)
    (hr : Leaves Γ kind r [ty]) :
    Leaves Γ kind (assignCode ⟨some ty, line⟩ place none value r keep) (kept keep ty) := by
  obtain ⟨code, rfl, hc⟩ := hr
  refine ⟨code ++ dupIf keep ++ place.storeCode, rfl, ?_⟩
  intro S
  exact ((hc S).append (dupIf_fits keep ty S)).append (Place.storeCode_fits hp _)

theorem assignCode_leaves_compound {value : Expr} (keep : Bool) (hp : Γ.placeTy place = some ty)
    (ht : value.ty = some found) (hres : op.resultTy? ty found = some result)
    (ha : ty.accepts result = true) (hr : Leaves Γ kind r [found]) :
    Leaves Γ kind (assignCode ⟨some ty, line⟩ place (some op) value r keep) (kept keep ty) := by
  obtain ⟨code, rfl, hc⟩ := hr
  obtain ⟨compound, hcomp, hf⟩ := compoundCode_fits ⟨some ty, line⟩ hres ha
  refine ⟨place.loadCode ++ code ++ compound ++ dupIf keep ++ place.storeCode, ?_, ?_⟩
  · simp only [assignCode, targetTy, ht, hcomp, bind, Except.bind, pure, Except.pure]
  · intro S
    have hload : CodeFits Γ kind place.loadCode S (ty :: S) := Place.loadCode_fits hp S
    have hright := (hload.append (hc _)).append (hf S)
    exact (hright.append (dupIf_fits keep ty S)).append (Place.storeCode_fits hp _)

/-- The values of operands stand on the stack with the last on top. -/
theorem valuesCode_leaves {args : List Expr} (types : List Ty) (ht : args.map Expr.ty = types.map some)
    (ha : ∀ e ∈ args, ∀ ty, e.ty = some ty → Leaves Γ kind e.valueCode [ty]) :
    Leaves Γ kind (valuesCode args) types.reverse := by
  induction args generalizing types with
  | nil =>
    cases types with
    | nil => exact ⟨[], rfl, fun _ => .nil⟩
    | cons ty types => simp at ht
  | cons arg args ih =>
    cases types with
    | nil => simp at ht
    | cons ty types =>
      simp only [List.map_cons, List.cons.injEq] at ht
      obtain ⟨first, hfirst, hf⟩ := ha arg List.mem_cons_self ty ht.1
      obtain ⟨others, hothers, ho⟩ := ih types ht.2 fun e he => ha e (List.mem_cons_of_mem _ he)
      refine ⟨first ++ others, ?_, ?_⟩
      · simp only [valuesCode, hfirst, hothers, bind, Except.bind, pure, Except.pure]
      · intro S
        simpa using (hf S).append (ho _)

theorem itemTypes {items : List Expr} (h : ∀ e ∈ items, ∃ ty, e.ty = some ty ∧ ty ≠ .list) :
    ∃ types : List Ty, items.map Expr.ty = types.map some ∧ ∀ ty ∈ types, ty ≠ .list := by
  induction items with
  | nil => exact ⟨[], rfl, by simp⟩
  | cons item items ih =>
    obtain ⟨ty, hty, hne⟩ := h item List.mem_cons_self
    obtain ⟨types, ht, hall⟩ := ih fun e he => h e (List.mem_cons_of_mem _ he)
    exact ⟨ty :: types, by simp [hty, ht], by simpa using ⟨hne, hall⟩⟩

/-- The code for the value of a well-typed expression leaves one value of its type. -/
theorem WellTyped.valueCode_leaves (h : e.WellTyped Γ) :
    ∀ ty, e.ty = some ty → Leaves Γ kind e.valueCode [ty] := by
  induction h with
  | literal v =>
    rintro ty ⟨⟩
    exact ⟨_, rfl, fun S => .single (.push v)⟩
  | load hx =>
    rintro ty ⟨⟩
    exact ⟨_, rfl, fun S => .single (.load hx)⟩
  | member _ ht ha ih =>
    rintro ty ⟨⟩
    exact (ih _ ht).andThen fun S => .single (.getMember ha)
  | unary _ ht hr ih =>
    rintro ty ⟨⟩
    exact (ih _ ht).andThen fun S => .single (.unary hr)
  | @binary _ op _ _ _ _ _ _ _ hlt hrt hres ihl ihr =>
    rintro ty ⟨⟩
    obtain ⟨l, hl, hlf⟩ := ihl _ hlt
    obtain ⟨r, hr, hrf⟩ := ihr _ hrt
    refine ⟨l ++ r ++ [.binary op], ?_, ?_⟩
    · simp only [valueCode, hl, hr, bind, Except.bind, pure, Except.pure]
    · intro S
      exact ((hlf S).append (hrf _)).append (.single (.binary hres))
  | assign _ hp ht ih =>
    rintro ty ⟨⟩
    exact assignCode_leaves _ true hp (ih _ ht)
  | compound _ hp ht hr ha ih =>
    rintro ty ⟨⟩
    exact assignCode_leaves_compound true hp ht hr ha (ih _ ht)
  | step hp hn =>
    rintro ty ⟨⟩
    exact stepCode_leaves _ true hp hn
  | cast _ ht hc ih =>
    rintro ty ⟨⟩
    exact (ih _ ht).andThen fun S => .single (.cast hc)
  | convert _ ht ha ih =>
    rintro ty ⟨⟩
    exact (ih _ ht).andThen fun S => .single (.convert ha)
  | @call _ callee args params returns hc _ ht ih =>
    rintro ty ⟨⟩
    have hlen : args.length = params.length := by simpa using congrArg List.length ht
    refine (valuesCode_leaves params ht ih).andThen fun S => .single ?_
    rw [hlen]
    exact .call hc
  | vector _ ht ih =>
    rintro ty ⟨⟩
    exact (valuesCode_leaves (List.replicate 3 .float) ht ih).andThen fun S => .single .makeVector
  | rotation _ ht ih =>
    rintro ty ⟨⟩
    exact (valuesCode_leaves (List.replicate 4 .float) ht ih).andThen fun S => .single .makeRotation
  | @list _ items _ ht ih =>
    rintro ty ⟨⟩
    obtain ⟨types, htypes, hne⟩ := itemTypes ht
    have hlen : items.length = types.length := by simpa using congrArg List.length htypes
    refine (valuesCode_leaves types htypes ih).andThen fun S => .single ?_
    rw [hlen]
    exact .makeList hne
  | label name => rintro ty ⟨⟩

/-- The code for the effect of a well-typed expression leaves nothing.  Only a label has no effect. -/
theorem WellTyped.effectCode_leaves (h : e.WellTyped Γ) (hl : ∀ info name, e ≠ .label info name) :
    Leaves Γ kind e.effectCode [] := by
  have hpop : ∀ ty, e.ty = some ty → Leaves Γ kind (do return (← e.valueCode) ++ [.pop]) [] :=
    fun ty ht => (h.valueCode_leaves ty ht).andThen fun S => .single .pop
  cases h with
  | @assign _ _ value _ hv hp ht => exact assignCode_leaves value false hp (hv.valueCode_leaves _ ht)
  | compound hv hp ht hr ha => exact assignCode_leaves_compound false hp ht hr ha (hv.valueCode_leaves _ ht)
  | step hp hn => exact stepCode_leaves _ false hp hn
  | @call _ callee args params returns hc ha ht =>
    have hlen : args.length = params.length := by simpa using congrArg List.length ht
    have hargs : Leaves Γ kind (valuesCode args) params.reverse :=
      valuesCode_leaves params ht fun e he => (ha e he).valueCode_leaves
    obtain ⟨code, hcode, hf⟩ := hargs
    refine ⟨code ++ [.call callee args.length] ++ (if returns.isSome then [.pop] else []), ?_, ?_⟩
    · simp only [effectCode, hcode, bind, Except.bind, pure, Except.pure]
    · intro S
      rw [hlen]
      refine ((hf S).append (.single (.call hc))).append ?_
      cases returns with
      | none => exact .nil
      | some ty => exact .single .pop
  | label name => exact absurd rfl (hl _ name)
  | literal | load | member | unary | binary | cast | convert | vector | rotation | list =>
    exact hpop _ rfl

/-- An initializer returns a value of the type of its variable. -/
theorem initializerCode_fits {init : Option Expr} (hi : ∀ e, init = some e → e.WellTyped Γ ∧ e.ty = some ty) :
    ∃ code, initializerCode init ty = .ok (code ++ [.retValue]) ∧ CodeFits Γ kind code [] [ty] := by
  cases init with
  | none => exact ⟨[.push ty.defaultValue], rfl, by simpa using CodeFits.single (.push ty.defaultValue)⟩
  | some e =>
    have he : Leaves Γ kind e.valueCode [ty] := (hi e rfl).1.valueCode_leaves ty (hi e rfl).2
    obtain ⟨code, hcode, hf⟩ := he
    refine ⟨code, ?_, hf []⟩
    simp only [initializerCode, hcode, bind, Except.bind, pure, Except.pure]

end Expr

end WorldScript
