import WorldScript.Expr.Coding
import WorldScript.Proofs.Expr.Resolution

/-! # Variables of expressions

A term reads and writes variables in an order that is plain from how it is written: operands come from
left to right, an assignment writes after its value is known, and a compound assignment and a step read
their place before they write it.  Elaboration binds each of the names and keeps the order, and so does
the code of the expression, whether for its value or for its effect.
-/

namespace WorldScript

def Instr.var? {τ : Type} : Instr τ → Option Var
  | .load x | .store x | .storeMember x _ => some x
  | _ => none

def Instr.vars {τ : Type} (code : List (Instr τ)) : List Var := code.filterMap Instr.var?

@[simp] theorem Instr.vars_append {τ : Type} (code more : List (Instr τ)) :
    Instr.vars (code ++ more) = Instr.vars code ++ Instr.vars more := List.filterMap_append

theorem Instr.vars_snoc {τ : Type} (code : List (Instr τ)) {i : Instr τ} (h : i.var? = none) :
    Instr.vars (code ++ [i]) = Instr.vars code := by
  simp [Instr.vars, h]

def Place.base : Place → Var
  | .var x | .member x _ => x

@[simp] theorem Place.vars_loadCode (place : Place) : Instr.vars place.loadCode = [place.base] := by
  cases place <;> rfl

@[simp] theorem Place.vars_storeCode (place : Place) : Instr.vars place.storeCode = [place.base] := by
  cases place <;> rfl

mutual

/-- The variables that a term reads and writes, in order, where names stand for what `look` says. -/
def Term.accesses (look : String → Option Var) : Term → List Var
  | .literal _ _ | .label _ _ | .broken _ => []
  | .name n _ => (look n).toList
  | .call _ ts _ | .list ts _ | .angle ts _ => Term.allAccesses look ts
  | .cast _ t _ | .unary _ t _ | .member t _ _ | .brokenAfter t _ => t.accesses look
  | .step _ _ t _ => t.accesses look ++ t.accesses look
  | .binary _ t u _ => t.accesses look ++ u.accesses look
  | .assign ⟨none⟩ t u _ => u.accesses look ++ t.accesses look
  | .assign ⟨some _⟩ t u _ => t.accesses look ++ u.accesses look ++ t.accesses look

def Term.allAccesses (look : String → Option Var) : List Term → List Var
  | [] => []
  | t :: rest => t.accesses look ++ Term.allAccesses look rest

end

theorem Term.allAccesses_append (look : String → Option Var) (ts us : List Term) :
    Term.allAccesses look (ts ++ us) = Term.allAccesses look ts ++ Term.allAccesses look us := by
  induction ts with
  | nil => rfl
  | cons t rest ih => simp only [List.cons_append, Term.allAccesses, ih, List.append_assoc]

@[simp] theorem Term.allAccesses_singleton (look : String → Option Var) (t : Term) :
    Term.allAccesses look [t] = t.accesses look := List.append_nil _

namespace Expr

mutual

def accesses : Expr → List Var
  | .literal _ _ | .label _ _ => []
  | .load _ x => [x]
  | .member _ e _ | .unary _ _ e | .cast _ _ e | .convert _ _ e => e.accesses
  | .binary _ _ l r => l.accesses ++ r.accesses
  | .assign _ place none e => e.accesses ++ [place.base]
  | .assign _ place (some _) e => place.base :: e.accesses ++ [place.base]
  | .step _ place _ _ => [place.base, place.base]
  | .call _ _ es | .vector _ es | .rotation _ es | .list _ es => allAccesses es

def allAccesses : List Expr → List Var
  | [] => []
  | e :: rest => e.accesses ++ allAccesses rest

end

theorem accesses_of_place? {e : Expr} {place : Place} (h : e.place? = some place) :
    e.accesses = [place.base] := by
  unfold place? at h
  split at h
  · cases h
    rfl
  · cases h
    rfl
  · cases h

theorem accesses_of_negated? {e : Expr} {v : Value} (h : e.negated? = some v) : e.accesses = [] := by
  unfold negated? at h
  split at h
  · rfl
  · rfl
  · rfl
  · cases h

@[simp] theorem accesses_convertedTo (e : Expr) (target : Ty) :
    (e.convertedTo target).accesses = e.accesses := by
  unfold convertedTo
  split
  · rfl
  · rfl

theorem allAccesses_zipWith {es : List Expr} {types : List Ty} (h : es.length = types.length) :
    allAccesses (List.zipWith convertedTo es types) = allAccesses es := by
  induction es generalizing types with
  | nil => rfl
  | cons e rest ih =>
    cases types with
    | nil => cases h
    | cons ty types =>
      simp only [List.zipWith_cons_cons, allAccesses, accesses_convertedTo]
      rw [ih (Nat.succ.inj h)]

theorem allAccesses_map (es : List Expr) (ty : Ty) :
    allAccesses (es.map fun e => e.convertedTo ty) = allAccesses es := by
  induction es with
  | nil => rfl
  | cons e rest ih => simp only [List.map_cons, allAccesses, accesses_convertedTo, ih]

end Expr

def Names.var? (n : Names) (name : String) : Option Var := (n.lookup? name).map Prod.fst

namespace Env

theorem Selects.length {candidates : List HostFunction} {types : List Ty} {f : HostFunction}
    (h : Selects candidates types f) : f.params.length = types.length := by
  obtain h | ⟨-, h⟩ := h
  · have hf : f.params = types := by simpa using List.find?_some h
    rw [hf]
  · have hf : f ∈ candidates.filter (reaches types) := by simp [h]
    have hr := (List.mem_filter.mp hf).2
    simp only [reaches, Bool.and_eq_true, decide_eq_true_eq] at hr
    exact hr.1

mutual

/-- An expression has the variables of its term in their order. -/
theorem Resolves.accesses {env : Env} (t : Term) {e : Expr} (h : env.Resolves t e) :
    e.accesses = t.accesses env.names.var? := by
  cases t with
  | literal value line =>
    cases h
    rfl
  | name name line =>
    cases h with
    | load hl => simp [Expr.accesses, Term.accesses, Names.var?, hl]
    | constant hl => simp [Expr.ofValue, Expr.accesses, Term.accesses, Names.var?, hl]
  | label name line =>
    cases h
    rfl
  | call name args line =>
    cases h with
    | scriptCall hes ht _ _ ha =>
      have hlen := ha.length_eq
      have htypes := congrArg List.length ht
      simp only [List.length_map] at hlen htypes
      simp only [Expr.accesses, Term.accesses]
      rw [Expr.allAccesses_zipWith (by simp [hlen, htypes]), Resolves.allAccesses args hes]
    | hostCall hes ht _ hf =>
      have htypes := congrArg List.length ht
      simp only [List.length_map] at htypes
      simp only [Expr.accesses, Term.accesses]
      rw [Expr.allAccesses_zipWith (by rw [hf.length, htypes]), Resolves.allAccesses args hes]
  | list items line =>
    cases h with
    | list hes => exact Resolves.allAccesses items hes
  | angle parts line =>
    cases h with
    | vector hes | rotation hes =>
      simp only [Expr.accesses, Term.accesses]
      rw [Expr.allAccesses_map, Resolves.allAccesses parts hes]
  | cast target operand line =>
    cases h with
    | cast he =>
      simp only [Expr.accesses, Term.accesses]
      exact Resolves.accesses operand he
  | unary op operand line =>
    cases h with
    | negative he _ hn =>
      have hoperand := Resolves.accesses operand he
      rw [Expr.accesses_of_negated? hn] at hoperand
      exact hoperand
    | unary he =>
      simp only [Expr.accesses, Term.accesses]
      exact Resolves.accesses operand he
  | step s first operand line =>
    cases h with
    | step he hp =>
      simp only [Expr.accesses, Term.accesses]
      rw [← Resolves.accesses operand he, Expr.accesses_of_place? hp]
      rfl
  | member base name line =>
    cases h with
    | member he =>
      simp only [Expr.accesses, Term.accesses]
      exact Resolves.accesses base he
  | binary op left right line =>
    cases h with
    | binary hl hr =>
      simp only [Expr.accesses, Term.accesses]
      rw [Resolves.accesses left hl, Resolves.accesses right hr]
  | assign assignment target value line =>
    cases h with
    | assign ht hv hp =>
      simp only [Expr.accesses, Term.accesses, Expr.accesses_convertedTo]
      rw [Resolves.accesses value hv, ← Resolves.accesses target ht, Expr.accesses_of_place? hp]
    | compound ht hv hp =>
      simp only [Expr.accesses, Term.accesses]
      rw [Resolves.accesses value hv, ← Resolves.accesses target ht, Expr.accesses_of_place? hp]
      rfl
  | broken | brokenAfter => cases h

theorem Resolves.allAccesses {env : Env} (ts : List Term) {es : List Expr}
    (h : List.Forall₂ env.Resolves ts es) : Expr.allAccesses es = Term.allAccesses env.names.var? ts := by
  cases ts with
  | nil =>
    cases h
    rfl
  | cons t rest =>
    cases h with
    | cons he hrest =>
      simp only [Expr.allAccesses, Term.allAccesses]
      rw [Resolves.accesses t he, Resolves.allAccesses rest hrest]

end

theorem elaborate_accesses {env : Env} {t : Term} {e : Expr} (h : env.elaborate t = .ok e) :
    e.accesses = t.accesses env.names.var? := Resolves.accesses t ((elaborate_ok_iff t).mp h)

theorem elaborateAll_accesses {env : Env} {ts : List Term} {es : List Expr}
    (h : env.elaborateAll ts = .ok es) : Expr.allAccesses es = Term.allAccesses env.names.var? ts :=
  Resolves.allAccesses ts ((elaborateAll_ok_iff ts).mp h)

end Env

namespace Expr

variable {code : List (Instr Label)} {info : Info}

@[simp] theorem vars_dupIf (keep : Bool) : Instr.vars (dupIf keep) = [] := by
  cases keep <;> rfl

/-- Code of operands, with the instruction for the operation after it. -/
theorem vars_operation {r : Except Diagnostic (List (Instr Label))} {i : Instr Label} {vars : List Var}
    (hi : i.var? = none) (hr : ∀ c, r = .ok c → Instr.vars c = vars)
    (h : (do return (← r) ++ [i]) = Except.ok code) : Instr.vars code = vars := by
  obtain ⟨c, hc, h⟩ := bind_ok.mp h
  cases h
  rw [Instr.vars_snoc c hi, hr c hc]

theorem vars_stepCode {place : Place} {s : Step} {first keep : Bool}
    (h : stepCode info place s first keep = .ok code) : Instr.vars code = [place.base, place.base] := by
  obtain ⟨ty, -, h⟩ := bind_ok.mp h
  split at h
  · cases h
  · rename_i one _
    cases h
    have hop : Instr.vars ([.push one, .binary s.op] : List (Instr Label)) = [] := rfl
    simp only [Instr.vars_append, Place.vars_loadCode, Place.vars_storeCode, vars_dupIf, hop]
    rfl

theorem vars_compoundCode {op : BinaryOp} {target found : Ty}
    (h : compoundCode info op target found = .ok code) : Instr.vars code = [] := by
  obtain ⟨result, -, h⟩ := bind_ok.mp h
  cases h
  split
  · rfl
  · rfl

theorem vars_assignCode {place : Place} {op : Option BinaryOp} {value : Expr} {keep : Bool}
    (h : assignCode info place op value value.valueCode keep = .ok code)
    (hvalue : ∀ c, value.valueCode = .ok c → Instr.vars c = value.accesses) :
    Instr.vars code = (Expr.assign info place op value).accesses := by
  obtain ⟨target, -, h⟩ := bind_ok.mp h
  cases op with
  | none =>
    obtain ⟨c, hc, h⟩ := bind_ok.mp h
    cases h
    simp only [Instr.vars_append, hvalue c hc, vars_dupIf, Place.vars_storeCode, List.append_nil, accesses]
  | some op =>
    dsimp only at h
    split at h
    · cases h
    · obtain ⟨c, hc, h⟩ := bind_ok.mp h
      obtain ⟨compound, hcompound, h⟩ := bind_ok.mp h
      cases h
      simp only [Instr.vars_append, hvalue c hc, vars_compoundCode hcompound, vars_dupIf, Place.vars_loadCode,
        Place.vars_storeCode, List.append_nil, accesses]
      rfl

mutual

/-- The code for a value has the variables of its expression in their order. -/
theorem vars_valueCode (e : Expr) {code : List (Instr Label)} (h : e.valueCode = .ok code) :
    Instr.vars code = e.accesses := by
  cases e with
  | literal info v =>
    cases h
    rfl
  | load info x =>
    cases h
    rfl
  | member info base a => exact vars_operation rfl (fun c hc => vars_valueCode base hc) h
  | unary info op operand => exact vars_operation rfl (fun c hc => vars_valueCode operand hc) h
  | binary info op left right =>
    obtain ⟨l, hl, h⟩ := bind_ok.mp h
    obtain ⟨r, hr, h⟩ := bind_ok.mp h
    cases h
    rw [Instr.vars_snoc _ rfl, Instr.vars_append, vars_valueCode left hl, vars_valueCode right hr]
    rfl
  | assign info place op value => exact vars_assignCode h fun c hc => vars_valueCode value hc
  | step info place s first => exact vars_stepCode h
  | cast info target operand => exact vars_operation rfl (fun c hc => vars_valueCode operand hc) h
  | convert info target operand => exact vars_operation rfl (fun c hc => vars_valueCode operand hc) h
  | call info callee args =>
    unfold valueCode at h
    split at h
    · cases h
    · exact vars_operation rfl (fun c hc => vars_valuesCode args hc) h
  | vector info parts => exact vars_operation rfl (fun c hc => vars_valuesCode parts hc) h
  | rotation info parts => exact vars_operation rfl (fun c hc => vars_valuesCode parts hc) h
  | list info items => exact vars_operation rfl (fun c hc => vars_valuesCode items hc) h
  | label info name => cases h

theorem vars_valuesCode (es : List Expr) {code : List (Instr Label)} (h : valuesCode es = .ok code) :
    Instr.vars code = allAccesses es := by
  cases es with
  | nil =>
    cases h
    rfl
  | cons e rest =>
    obtain ⟨first, hfirst, h⟩ := bind_ok.mp h
    obtain ⟨others, hothers, h⟩ := bind_ok.mp h
    cases h
    rw [Instr.vars_append, vars_valueCode e hfirst, vars_valuesCode rest hothers]
    rfl

end

theorem vars_effectCode {e : Expr} (h : e.effectCode = .ok code) : Instr.vars code = e.accesses := by
  unfold effectCode at h
  split at h
  · exact vars_assignCode h fun c hc => vars_valueCode _ hc
  · exact vars_stepCode h
  · rename_i info callee args
    obtain ⟨c, hc, h⟩ := bind_ok.mp h
    cases h
    have hpop : Instr.vars (if info.ty.isSome = true then [Instr.pop (τ := Label)] else []) = [] := by
      split
      · rfl
      · rfl
    rw [Instr.vars_append, Instr.vars_snoc _ rfl, hpop, vars_valuesCode args hc, List.append_nil]
    rfl
  · cases h
  · exact vars_operation rfl (fun c hc => vars_valueCode _ hc) h

end Expr

end WorldScript
