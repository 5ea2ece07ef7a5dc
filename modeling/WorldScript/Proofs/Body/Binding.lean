import WorldScript.Proofs.Body.Refinement
import WorldScript.Proofs.Body.Wholeness
import WorldScript.Proofs.Script.WellFormed
import WorldScript.Proofs.Stmt.Scoping

/-! # Variables bind lexically

Bodies are worked through with scopes that are opened and left, and the step of a loop comes after its
body.  Still, the variables that the finished code reads and writes, one after the other, are those that
lexical scoping gives, and every declaration has the slot that the text gives it.
-/

namespace WorldScript

variable {globals locals : List Param} {outer : List Bindings} {bound : Bindings} {s : BodyState Assembly}

def BodyState.Shows (names : Names) (vars : List Var) (s : BodyState Assembly) : Prop :=
  s.names = names ∧ Instr.vars s.code = vars

namespace Body

open BodyM

variable {ctx : BodyContext} {α β : Type} {s t : BodyState Assembly} {a : Unit}

/-- Work leaves the names alone, and its code reads and writes what the terms do. -/
def Reads (ts : List Term) (x : BodyM Assembly α) : Prop :=
  ∀ names vars, Ensures (BodyState.Shows names vars) x fun _ =>
    BodyState.Shows names (vars ++ Term.allAccesses names.var? ts)

abbrev Quiet (x : BodyM Assembly α) : Prop := Reads [] x

namespace Reads

variable {ts us : List Term} {x : BodyM Assembly α} {f : α → BodyM Assembly β}

theorem bind (hx : Reads ts x) (hf : ∀ a, Reads us (f a)) : Reads (ts ++ us) (x >>= f) := by
  intro names vars
  refine .bind (hx names vars) fun a => ?_
  have h := hf a names (vars ++ Term.allAccesses names.var? ts)
  rwa [List.append_assoc, ← Term.allAccesses_append] at h

theorem quietly (hx : Quiet x) (hf : ∀ a, Reads us (f a)) : Reads us (x >>= f) := bind hx hf

theorem first (hx : Reads ts x) (hf : ∀ a, Quiet (f a)) : Reads ts (x >>= f) := by
  have h := bind hx hf
  rwa [List.append_nil] at h

theorem throw (d : Diagnostic) : Reads ts (throw d : BodyM Assembly α) := fun _ _ => .throw

theorem pure (a : α) : Quiet (pure a : BodyM Assembly α) := by
  intro names vars
  refine .pure fun s hs => ?_
  rwa [Term.allAccesses, List.append_nil]

/-- Work that leaves names and code alone. -/
theorem of_same (h : ∀ s a t, x s = .ok a t → t.names = s.names ∧ t.code = s.code) : Quiet x := by
  rintro names vars s a t ⟨rfl, rfl⟩ ht
  obtain ⟨hn, hc⟩ := h s a t ht
  rw [BodyState.Shows, hn, hc, Term.allAccesses, List.append_nil]
  exact ⟨rfl, rfl⟩

end Reads

theorem atLine_quiet (line : Nat) : Quiet (atLine line) :=
  .of_same fun _ _ _ h => by
    cases h
    exact ⟨rfl, rfl⟩

theorem write_quiet {code : List (Instr Label)} (h : Instr.vars code = []) : Quiet (write code) := by
  rintro names vars s a t ⟨rfl, rfl⟩ ht
  cases ht
  refine ⟨rfl, ?_⟩
  change Instr.vars ((Backend.writeAll s.backend code).drafts.toList.map Draft.instr) = _
  rw [(writeAll_drafts s.backend code).1, Instr.vars_append, h]
  rfl

theorem newLabel_quiet (purpose : LabelPurpose) (construct : String) (line : Nat) :
    Quiet (newLabel purpose construct line) :=
  .of_same fun _ _ _ h => by
    cases h
    exact ⟨rfl, rfl⟩

theorem mark_quiet (label : Label) (line : Nat) : Quiet (mark label line) := by
  refine .of_same fun s a t h => ?_
  obtain ⟨_, _, hget, h⟩ := run_bind_ok h
  cases hget
  obtain ⟨book, _, hbook, h⟩ := run_bind_ok h
  obtain ⟨-, rfl⟩ := lift_ok hbook
  cases h
  exact ⟨rfl, rfl⟩

theorem setJump_quiet (name : String) (label : JumpLabel) :
    Quiet (modify fun s => { s with jumps := s.jumps.insert name label } : BodyM Assembly Unit) :=
  .of_same fun _ _ _ h => by
    cases h
    exact ⟨rfl, rfl⟩

/-- Work that starts with a look at the state. -/
theorem get_reads {ts : List Term} {f : BodyState Assembly → BodyM Assembly α} (h : ∀ s, Reads ts (f s)) :
    Reads ts (get >>= f) := fun names vars s a t hs ht => h s names vars s a t hs ht

theorem jumpLabel_quiet (name : String) (line : Nat) : Quiet (jumpLabel name line) := by
  refine get_reads fun s => ?_
  cases s.jumps.get? name with
  | some known => exact .pure _
  | none =>
    refine .quietly (newLabel_quiet _ _ _) fun label => ?_
    exact .quietly (setJump_quiet name ⟨label, line, none⟩) fun _ => .pure _

theorem defineLabel_quiet (name : String) (line : Nat) : Quiet (defineLabel name line line) := by
  refine .quietly (jumpLabel_quiet name line) fun label => get_reads fun s => ?_
  have hmark := mark_quiet label line
  cases s.jumps.get? name with
  | none => exact hmark
  | some known =>
    cases hd : known.definedAt with
    | some first =>
      simp only [hd]
      intro names vars s a t _ ht
      cases ht
    | none =>
      simp only [hd]
      exact .quietly (setJump_quiet name { known with definedAt := some line }) fun _ => hmark

theorem markKnown_quiet (label : Option Label) (line : Nat) : Quiet (markKnown label line) := by
  cases label with
  | some l => exact mark_quiet l line
  | none => exact .pure _

theorem loopJump_quiet (target : Option Label) (word : Keyword) (line : Nat) :
    Quiet (loopJump target word line) := by
  cases target with
  | some label => exact write_quiet rfl
  | none => exact .throw _

theorem stateChange_quiet (name : String) (line : Nat) : Quiet (stateChange ctx name line) := by
  unfold stateChange
  split
  · exact .throw _
  · refine get_reads fun s => ?_
    cases s.names.stateIndex? name with
    | some index => exact write_quiet rfl
    | none => exact .throw _

theorem nextArm_quiet (meeting : Option Label) (otherwise : Label) (start line : Nat) :
    Quiet (nextArm meeting otherwise start line) := by
  have hmeeting : Quiet (meetingPoint meeting start) := by
    cases meeting with
    | some label => exact .pure _
    | none => exact newLabel_quiet _ _ _
  refine .quietly (atLine_quiet line) fun _ => .quietly hmeeting fun label => ?_
  exact .quietly (write_quiet rfl) fun _ => .quietly (mark_quiet otherwise line) fun _ => .pure _

/-- The code of an expression that a term stands for accesses what the term does. -/
theorem liftWrite_shows {term : Term} {e : Expr} {r : Except Diagnostic (List (Instr Label))}
    {s t : BodyState Assembly} {a : Unit}
    (he : Env.elaborate ⟨ctx.registry, ctx.visibility, s.names⟩ term = .ok e)
    (hr : ∀ code, r = .ok code → Instr.vars code = e.accesses)
    (h : (do let code ← lift r; write code : BodyM Assembly Unit) s = .ok a t) :
    t.Shows s.names (Instr.vars s.code ++ Term.allAccesses s.names.var? [term]) := by
  obtain ⟨code, _, hlift, h⟩ := run_bind_ok h
  obtain ⟨hcode, rfl⟩ := lift_ok hlift
  cases h
  refine ⟨rfl, ?_⟩
  change Instr.vars ((Backend.writeAll s.backend code).drafts.toList.map Draft.instr) = _
  rw [(writeAll_drafts s.backend code).1, Instr.vars_append, hr code hcode, Env.elaborate_accesses he]
  simp only [Term.allAccesses, List.append_nil]
  rfl

theorem condition_reads (term : Term) (line : Nat) : Reads [term] (condition ctx term line) := by
  rintro names vars s a t ⟨rfl, rfl⟩ h
  obtain ⟨⟨e, ty⟩, _, hv, h⟩ := run_bind_ok h
  obtain ⟨he, -, rfl⟩ := value_ok hv
  exact liftWrite_shows he (fun code hc => Expr.vars_valueCode e hc) h

/-- A value that is converted to a type. -/
theorem valueOf_shows {ty : Ty} {term : Term} {e : Expr}
    (he : Env.elaborate ⟨ctx.registry, ctx.visibility, s.names⟩ term = .ok e) (h : valueOf ty e s = .ok a t) :
    t.Shows s.names (Instr.vars s.code ++ Term.allAccesses s.names.var? [term]) := by
  refine liftWrite_shows he (fun code hc => ?_) h
  rw [Expr.vars_valueCode _ hc, Expr.accesses_convertedTo]

theorem armCondition_reads (construct : Construct) (term : Term) (line : Nat) :
    Reads [term] (armCondition ctx construct term line) := by
  refine .first (condition_reads term line) fun _ => ?_
  exact .quietly (newLabel_quiet _ _ _) fun label => .quietly (write_quiet rfl) fun _ => .pure _

theorem effectAll_shows {es : List Expr} (h : effectAll es s = .ok a t) :
    t.Shows s.names (Instr.vars s.code ++ Expr.allAccesses es) := by
  induction es generalizing s with
  | nil =>
    obtain ⟨-, rfl⟩ := run_pure_ok h
    exact ⟨rfl, by simp [Expr.allAccesses]⟩
  | cons e rest ih =>
    obtain ⟨_, u, hu, h⟩ := run_bind_ok h
    obtain ⟨code, _, hlift, hu⟩ := run_bind_ok hu
    obtain ⟨hcode, rfl⟩ := lift_ok hlift
    cases hu
    obtain ⟨hn, hv⟩ := ih h
    refine ⟨hn, hv.trans ?_⟩
    change Instr.vars ((Backend.writeAll s.backend code).drafts.toList.map Draft.instr) ++ _ = _
    rw [(writeAll_drafts s.backend code).1, Instr.vars_append, Expr.vars_effectCode hcode, List.append_assoc]
    rfl

theorem effects_reads (terms : List Term) : Reads terms (effects ctx terms) := by
  rintro names vars s a t ⟨rfl, rfl⟩ h
  obtain ⟨env, _, henv, h⟩ := run_bind_ok h
  cases henv
  obtain ⟨es, _, hlift, h⟩ := run_bind_ok h
  obtain ⟨hes, rfl⟩ := lift_ok hlift
  rw [← Env.elaborateAll_accesses hes]
  exact effectAll_shows h

theorem expression_reads (term : Term) (line : Nat) : Reads [term] (expression ctx term line line) := by
  rintro names vars s a t ⟨rfl, rfl⟩ h
  obtain ⟨e, _, hrun, h⟩ := run_bind_ok h
  obtain ⟨he, rfl⟩ := elaborate_ok hrun
  split at h
  · -- the definition of a label has no code
    have hnone : Term.allAccesses s.names.var? [term] = [] := by
      have haccesses := Env.elaborate_accesses he
      simp only [Term.allAccesses, List.append_nil]
      exact haccesses.symm
    rw [hnone]
    exact defineLabel_quiet _ line _ _ s a t ⟨rfl, rfl⟩ h
  · exact liftWrite_shows he (fun code hc => Expr.vars_effectCode hc) h

theorem returning_reads (result : Option Term) (line : Nat) :
    Reads result.toList (returning ctx result line) := by
  unfold returning
  split
  · rintro names vars s a t ⟨rfl, rfl⟩ h
    obtain ⟨⟨e, found⟩, _, hv, h⟩ := run_bind_ok h
    obtain ⟨he, -, rfl⟩ := value_ok hv
    dsimp only at h
    split at h
    · obtain ⟨_, u, hu, h⟩ := run_bind_ok h
      have hret : Quiet (write [.retValue]) := write_quiet rfl
      have hshows := hret _ _ u _ t (valueOf_shows he hu) h
      rwa [Term.allAccesses, List.append_nil] at hshows
    · cases h
  · exact .throw _
  · split <;> exact .throw _
  · exact write_quiet rfl

end Body

/-- A state in which the names stand for what the text gives.  `outer` are the scopes around the
innermost one. -/
structure BodyState.Stands (globals : List Param) (outer : List Bindings) (bound : Bindings)
    (locals : List Param) (vars : List Var) (s : BodyState Assembly) : Prop where
  globals_eq : s.names.globals = globals
  visible : s.names.visibleGlobals = globals.length
  scopes_eq : ∃ scope, s.names.scopes = scope :: outer ∧ scope ++ outer.flatten = bound
  locals_eq : s.names.locals = locals
  slots_lt : ∀ b ∈ bound, b.2 < locals.length
  vars_eq : Instr.vars s.code = vars

theorem findSome?_lookup (scopes : List Bindings) (name : String) :
    (scopes.findSome? fun scope => scope.lookup name) = scopes.flatten.lookup name := by
  induction scopes with
  | nil => rfl
  | cons scope rest ih =>
    rw [List.flatten_cons, List.lookup_append, ← ih, List.findSome?_cons]
    cases scope.lookup name <;> rfl

/-- Scopes that are opened and left give what lexical scoping gives. -/
theorem BodyState.Stands.var? {vars : List Var} (h : s.Stands globals outer bound locals vars) :
    s.names.var? = lexical globals bound := by
  funext name
  obtain ⟨scope, hscopes, hbound⟩ := h.scopes_eq
  have hlocal : s.names.localSlot? name = bound.lookup name := by
    rw [Names.localSlot?, findSome?_lookup, hscopes, List.flatten_cons, hbound]
  unfold Names.var? Names.lookup? lexical
  rw [hlocal]
  cases hfound : bound.lookup name with
  | some slot =>
    obtain ⟨before, after, heq, -⟩ := List.lookup_eq_some_iff.mp hfound
    have hslot : slot < s.names.locals.length := by
      rw [h.locals_eq]
      exact h.slots_lt (name, slot) (by simp [heq])
    simp [hslot]
  | none =>
    simp only [Names.global?, h.globals_eq, h.visible]
    cases hindex : globals.findIdx? (·.name = name) with
    | none => simp
    | some i =>
      obtain ⟨hlt, -⟩ := List.findIdx?_eq_some_iff_getElem.mp hindex
      simp [hlt]

theorem BodyState.Stands.of_shows {before : List Var} {ts : List Term} {t : BodyState Assembly}
    (hs : s.Stands globals outer bound locals before)
    (ht : t.Shows s.names (Instr.vars s.code ++ Term.allAccesses s.names.var? ts)) :
    t.Stands globals outer bound locals (before ++ Term.allAccesses (lexical globals bound) ts) := by
  obtain ⟨hnames, hvars⟩ := ht
  rw [hs.var?, hs.vars_eq] at hvars
  exact ⟨hnames ▸ hs.globals_eq, hnames ▸ hs.visible, hnames ▸ hs.scopes_eq, hnames ▸ hs.locals_eq,
    hs.slots_lt, hvars⟩

namespace Body

open BodyM

variable {ctx : BodyContext} {globals : List Param} {α β : Type} {a : Unit} {line stop : Nat}
  {params : List Param}

/-- Work takes the bindings in scope from `bound` to `bound'` when there are `slot` locals before it, adds
locals, and its code reads and writes some variables. -/
def Accesses (globals : List Param) (bound bound' : Bindings) (slot : Nat) (added : List (Param × Nat))
    (vars : List Var) (x : BodyM Assembly α) : Prop :=
  ∀ outer locals before, locals.length = slot →
    Ensures (BodyState.Stands globals outer bound locals before) x fun _ =>
      BodyState.Stands globals outer bound' (locals ++ added.map Prod.fst) (before ++ vars)

namespace Accesses

variable {bound bound' bound'' : Bindings} {slot : Nat} {added more : List (Param × Nat)}
  {vars others : List Var} {x : BodyM Assembly α} {f : α → BodyM Assembly β} {ts : List Term}

theorem bind (hx : Accesses globals bound bound' slot added vars x)
    (hf : ∀ a, Accesses globals bound' bound'' (slot + added.length) more others (f a)) :
    Accesses globals bound bound'' slot (added ++ more) (vars ++ others) (x >>= f) := by
  intro outer locals before hlen
  refine .bind (hx outer locals before hlen) fun a => ?_
  have h := hf a outer (locals ++ added.map Prod.fst) (before ++ vars) (by simp [hlen])
  rwa [List.append_assoc, ← List.map_append, List.append_assoc] at h

theorem of_reads (h : Reads ts x) :
    Accesses globals bound bound slot [] (Term.allAccesses (lexical globals bound) ts) x := by
  intro outer locals before _ s a t hs ht
  rw [List.map_nil, List.append_nil]
  exact hs.of_shows (h s.names _ s a t ⟨rfl, rfl⟩ ht)

theorem of_quiet (h : Quiet x) : Accesses globals bound bound slot [] [] x := of_reads h

theorem reading (hx : Reads ts x) (hf : ∀ a, Accesses globals bound bound' slot more others (f a)) :
    Accesses globals bound bound' slot more
      (Term.allAccesses (lexical globals bound) ts ++ others) (x >>= f) :=
  have h : Accesses globals bound bound slot [] _ x := of_reads hx
  h.bind hf

theorem quietly (hx : Quiet x) (hf : ∀ a, Accesses globals bound bound' slot more others (f a)) :
    Accesses globals bound bound' slot more others (x >>= f) := reading hx hf

theorem then_reads (hx : Accesses globals bound bound' slot added vars x) (hf : ∀ a, Reads ts (f a)) :
    Accesses globals bound bound' slot added (vars ++ Term.allAccesses (lexical globals bound') ts)
      (x >>= f) := by
  have h := bind hx fun a => of_reads (hf a)
  rwa [List.append_nil] at h

theorem then_quiet (hx : Accesses globals bound bound' slot added vars x) (hf : ∀ a, Quiet (f a)) :
    Accesses globals bound bound' slot added vars (x >>= f) := by
  have h := then_reads hx hf
  rwa [Term.allAccesses, List.append_nil] at h

theorem inScope {work : BodyM Assembly Unit} (h : Accesses globals bound bound' slot added vars work) :
    Accesses globals bound bound slot added vars (inScope work) := by
  intro outer locals before hlen s a t hs ht
  obtain ⟨scope, hscopes, hbound⟩ := hs.scopes_eq
  obtain ⟨_, s₁, h₁, ht⟩ := run_bind_ok ht
  cases h₁
  obtain ⟨_, s₂, h₂, ht⟩ := run_bind_ok ht
  cases ht
  have hs₁ : BodyState.Stands globals (scope :: outer) bound locals before
      { s with names := s.names.openScope } :=
    ⟨hs.globals_eq, hs.visible, ⟨[], by simp [Names.openScope, hscopes], by simpa using hbound⟩, hs.locals_eq,
      hs.slots_lt, hs.vars_eq⟩
  -- the scope around is among the outer ones, and is still there when the inner one is left
  have hs₂ := h (scope :: outer) locals before hlen _ _ s₂ hs₁ h₂
  obtain ⟨inner, hinner, -⟩ := hs₂.scopes_eq
  refine ⟨hs₂.globals_eq, hs₂.visible, ⟨scope, by simp [Names.closeScope, hinner], hbound⟩, hs₂.locals_eq, ?_,
    hs₂.vars_eq⟩
  intro b hb
  rw [List.length_append]
  exact Nat.lt_add_right _ (hs.slots_lt b hb)

end Accesses

variable {outer : List Bindings} {bound : Bindings} {locals : List Param} {before : List Var}
  {s t : BodyState Assembly} {slot : Nat}

theorem write_stands {code : List (Instr Label)} (hs : s.Stands globals outer bound locals before)
    (h : write code s = .ok a t) : t.Stands globals outer bound locals (before ++ Instr.vars code) := by
  cases h
  have hwritten := congrArg Instr.vars (writeAll_drafts s.backend code).1
  rw [Instr.vars_append] at hwritten
  exact ⟨hs.globals_eq, hs.visible, hs.scopes_eq, hs.locals_eq, hs.slots_lt, hs.vars_eq ▸ hwritten⟩

/-- A declaration has the slot after all slots so far and hides what had its name. -/
theorem declare_stands {name : String} {ty : Ty} {found : Nat}
    (hs : s.Stands globals outer bound locals before) (h : declare name ty line s = .ok found t) :
    found = locals.length ∧
      t.Stands globals outer ((name, locals.length) :: bound) (locals ++ [⟨name, ty⟩]) before := by
  obtain ⟨scope, hscopes, hbound⟩ := hs.scopes_eq
  obtain ⟨_, _, hget, h⟩ := run_bind_ok h
  cases hget
  obtain ⟨⟨slot, names⟩, _, hlift, h⟩ := run_bind_ok h
  obtain ⟨hlocal, rfl⟩ := lift_ok hlift
  cases h
  unfold Names.declareLocal at hlocal
  rw [hscopes] at hlocal
  dsimp only at hlocal
  split at hlocal
  · cases hlocal
  · cases hlocal
    refine ⟨by rw [hs.locals_eq], hs.globals_eq, hs.visible,
      ⟨(name, s.names.locals.length) :: scope, rfl, ?_⟩,
      ?_, ?_, hs.vars_eq⟩
    · rw [List.cons_append, hbound, hs.locals_eq]
    · simp [hs.locals_eq]
    · intro b hb
      rw [List.length_append]
      obtain rfl | hb := List.mem_cons.mp hb
      · simp
      · exact Nat.lt_add_right _ (hs.slots_lt b hb)

theorem store_accesses (name : String) (ty : Ty) (line : Nat) :
    Accesses globals bound ((name, slot) :: bound) slot [(⟨name, ty⟩, slot)] [.loc slot]
      (do let found ← declare name ty line; write [.store (.loc found)]) := by
  rintro outer locals before rfl s a t hs h
  obtain ⟨found, u, hdeclare, h⟩ := run_bind_ok h
  obtain ⟨rfl, hu⟩ := declare_stands hs hdeclare
  exact write_stands hu h

theorem declaration_accesses (ty : Ty) (name : String) (init : Option Term) (line : Nat) :
    Accesses globals bound ((name, slot) :: bound) slot [(⟨name, ty⟩, slot)]
      (Term.allAccesses (lexical globals bound) init.toList ++ [.loc slot])
        (declaration ctx ty name init line) := by
  cases init with
  | none => exact .quietly (write_quiet rfl) fun _ => store_accesses name ty line
  | some term =>
    intro outer locals before hlen s a t hs h
    obtain ⟨⟨e, found⟩, _, hv, h⟩ := run_bind_ok h
    obtain ⟨he, -, rfl⟩ := value_ok hv
    dsimp only at h
    split at h
    · -- the value is read in the scope before the declaration
      obtain ⟨_, u, hu, h⟩ := run_bind_ok h
      have hu := hs.of_shows (valueOf_shows he hu)
      have ht := store_accesses name ty line outer locals _ hlen u a t hu h
      rwa [List.append_assoc] at ht
    · cases h

mutual

/-- The code of a statement reads and writes what lexical scoping gives. -/
theorem statement_accesses (ctx : BodyContext) (loop : Option LoopLabels) (bound : Bindings) (slot : Nat)
    (stmt : Stmt) :
    Accesses globals bound (stmt.binds slot bound) slot (stmt.declared slot)
      (stmt.accesses globals bound slot)
      (statement ctx loop stmt) := by
  cases stmt with
  | empty => exact .of_quiet (.pure _)
  | block body =>
    obtain ⟨inner, hbody⟩ := statements_accesses ctx loop bound slot body
    exact hbody.inScope
  | declare ty name init line =>
    exact .quietly (atLine_quiet line) fun _ => declaration_accesses ty name init line
  | expr term line =>
    have h : Accesses globals bound bound slot [] _ (statement ctx loop (.expr term line)) :=
      .of_reads (.quietly (atLine_quiet line) fun _ => expression_reads term line)
    rwa [Term.allAccesses_singleton] at h
  | ret result line => exact .of_reads (.quietly (atLine_quiet line) fun _ => returning_reads result line)
  | changeState name line =>
    exact .of_quiet (.quietly (atLine_quiet line) fun _ => stateChange_quiet name line)
  | jump name line =>
    refine .of_quiet (.quietly (atLine_quiet line) fun _ => ?_)
    exact .quietly (jumpLabel_quiet name line) fun label => write_quiet rfl
  | breakLoop line => exact .of_quiet (.quietly (atLine_quiet line) fun _ => loopJump_quiet _ _ line)
  | continueLoop line => exact .of_quiet (.quietly (atLine_quiet line) fun _ => loopJump_quiet _ _ line)
  | branch term body rest line =>
    obtain ⟨inner, hbody⟩ := statements_accesses ctx loop bound slot body
    have h : Accesses globals bound bound slot _ _ (statement ctx loop (.branch term body rest line)) :=
      .quietly (atLine_quiet line) fun _ => .reading (armCondition_reads .ifArm term line) fun otherwise =>
        .bind hbody.inScope fun _ => conditionalTail_accesses ctx loop bound _ none otherwise line rest
    rwa [Term.allAccesses_singleton, ← List.append_assoc] at h
  | whileLoop term body line after =>
    have h : Accesses globals bound bound slot (Stmt.allDeclared slot body)
        (Term.allAccesses (lexical globals bound) [term] ++ Stmt.allAccesses globals bound slot body)
        (statement ctx loop (.whileLoop term body line after)) := by
      refine .quietly (atLine_quiet line) fun _ => .quietly (newLabel_quiet _ _ line) fun again => ?_
      refine .quietly (newLabel_quiet _ _ line) fun stop => .quietly (mark_quiet again line) fun _ => ?_
      refine .reading (condition_reads term line) fun _ => .quietly (write_quiet rfl) fun _ => ?_
      obtain ⟨inner, hbody⟩ := statements_accesses ctx (some ⟨again, stop⟩) bound slot body
      refine .then_quiet hbody.inScope fun _ => .quietly (atLine_quiet after) fun _ => ?_
      exact .quietly (write_quiet rfl) fun _ => mark_quiet stop after
    rwa [Term.allAccesses_singleton] at h
  | forLoop init test step body line after =>
    have h : Accesses globals bound bound slot (Stmt.allDeclared slot body)
        (Term.allAccesses (lexical globals bound) init ++
          (Term.allAccesses (lexical globals bound) test.toList ++
          (Stmt.allAccesses globals bound slot body ++ Term.allAccesses (lexical globals bound) step)))
        (statement ctx loop (.forLoop init test step body line after)) := by
      refine .quietly (atLine_quiet line) fun _ => .reading (effects_reads init) fun _ => ?_
      refine .quietly (newLabel_quiet _ _ line) fun top => .quietly (newLabel_quiet _ _ line) fun again => ?_
      refine .quietly (newLabel_quiet _ _ line) fun stop => .quietly (mark_quiet top line) fun _ => ?_
      have hrest : Accesses globals bound bound slot (Stmt.allDeclared slot body)
          (Stmt.allAccesses globals bound slot body ++ Term.allAccesses (lexical globals bound) step)
          (do
            inScope (statements ctx (some ⟨again, stop⟩) body)
            atLine after
            mark again after
            effects ctx step
            write [.jump top]
            mark stop after) := by
        obtain ⟨inner, hbody⟩ := statements_accesses ctx (some ⟨again, stop⟩) bound slot body
        refine .then_reads hbody.inScope fun _ => .quietly (atLine_quiet after) fun _ => ?_
        refine .quietly (mark_quiet again after) fun _ => .first (effects_reads step) fun _ => ?_
        exact .quietly (write_quiet rfl) fun _ => mark_quiet stop after
      cases test with
      | none => exact hrest
      | some term =>
        exact .reading (condition_reads term line) fun _ => .quietly (write_quiet rfl) fun _ => hrest
    rwa [← List.append_assoc, ← List.append_assoc] at h
  | doLoop body term line test =>
    have h : Accesses globals bound bound slot (Stmt.allDeclared slot body)
        (Stmt.allAccesses globals bound slot body ++ Term.allAccesses (lexical globals bound) [term])
        (statement ctx loop (.doLoop body term line test)) := by
      refine .quietly (atLine_quiet line) fun _ => .quietly (newLabel_quiet _ _ line) fun top => ?_
      refine .quietly (newLabel_quiet _ _ line) fun again => .quietly (newLabel_quiet _ _ line) fun stop => ?_
      refine .quietly (mark_quiet top line) fun _ => ?_
      obtain ⟨inner, hbody⟩ := statements_accesses ctx (some ⟨again, stop⟩) bound slot body
      refine .then_reads hbody.inScope fun _ => .quietly (atLine_quiet test) fun _ => ?_
      refine .quietly (mark_quiet again test) fun _ => .first (condition_reads term test) fun _ => ?_
      exact .quietly (write_quiet rfl) fun _ => mark_quiet stop test
    rwa [Term.allAccesses_singleton] at h
  | broken problem => exact .of_quiet (.throw _)
termination_by structural stmt

theorem statements_accesses (ctx : BodyContext) (loop : Option LoopLabels) (bound : Bindings) (slot : Nat)
    (body : List Stmt) :
    ∃ inner, Accesses globals bound inner slot (Stmt.allDeclared slot body)
      (Stmt.allAccesses globals bound slot body)
      (statements ctx loop body) := by
  cases body with
  | nil => exact ⟨bound, .of_quiet (.pure _)⟩
  | cons s rest =>
    obtain ⟨inner, hrest⟩ :=
      statements_accesses ctx loop (s.binds slot bound) (slot + (s.declared slot).length) rest
    exact ⟨inner, .bind (statement_accesses ctx loop bound slot s) fun _ => hrest⟩
termination_by structural body

theorem conditionalTail_accesses (ctx : BodyContext) (loop : Option LoopLabels) (bound : Bindings)
    (slot : Nat) (meeting : Option Label) (otherwise : Label) (start : Nat) (tail : Tail) :
    Accesses globals bound bound slot (tail.declared slot) (tail.accesses globals bound slot)
      (conditionalTail ctx loop meeting otherwise start tail) := by
  cases tail with
  | done after =>
    refine .of_quiet (.quietly (atLine_quiet after) fun _ =>
      .quietly (mark_quiet otherwise after) fun _ => ?_)
    exact markKnown_quiet meeting after
  | elseIf term body rest line =>
    obtain ⟨inner, hbody⟩ := statements_accesses ctx loop bound slot body
    have h : Accesses globals bound bound slot _ _
        (conditionalTail ctx loop meeting otherwise start (.elseIf term body rest line)) :=
      .quietly (nextArm_quiet meeting otherwise start line) fun label =>
        .reading (armCondition_reads .elseIfArm term line) fun next => .bind hbody.inScope fun _ =>
          conditionalTail_accesses ctx loop bound _ (some label) next line rest
    rwa [Term.allAccesses_singleton, ← List.append_assoc] at h
  | elseArm body line after =>
    obtain ⟨inner, hbody⟩ := statements_accesses ctx loop bound slot body
    refine .quietly (nextArm_quiet meeting otherwise start line) fun label =>
      .then_quiet hbody.inScope fun _ => ?_
    exact .quietly (atLine_quiet after) fun _ => mark_quiet label after
termination_by structural tail

end

theorem declareParams_stands (hs : s.Stands globals outer bound locals before)
    (h : declareParams line params s = .ok a t) :
    t.Stands globals outer (((params.zipIdx locals.length).map fun p => (p.1.name, p.2)).reverse ++ bound)
      (locals ++ params) before := by
  induction params generalizing s bound locals with
  | nil =>
    obtain ⟨-, rfl⟩ := run_pure_ok h
    simpa using hs
  | cons p rest ih =>
    obtain ⟨found, u, hdeclare, h⟩ := run_bind_ok h
    have ht := ih (declare_stands hs hdeclare).2 h
    simpa using ht

theorem finish_shows (h : finish ctx stop s = .ok a t) :
    t.names.locals = s.names.locals ∧ Instr.vars t.code = Instr.vars s.code := by
  obtain ⟨hnames, hbackend⟩ := close_ok (finish_closes h)
  have hlast : Instr.vars (lastCode ctx.kind.returns) = [] := by cases ctx.kind.returns <;> rfl
  refine ⟨by rw [hnames]; rfl, ?_⟩
  rw [BodyState.code, hbackend, (writeAll_drafts _ _).1, Instr.vars_append, hlast, List.append_nil]
  rfl

theorem compileTree_accesses {names : Names} {opening : Nat} {tokens : List Token}
    (h : compileTree ctx params opening stop tokens (Body.start names .empty) = .ok locals s) :
    locals = params ++ (Stmt.allDeclared params.length (Stmt.ofTokens opening stop tokens)).map Prod.fst ∧
      Instr.vars s.code = Stmt.allAccesses names.globals (boundParams params) params.length
        (Stmt.ofTokens opening stop tokens) := by
  obtain ⟨s₂, s₃, h₂, h₃, h₄, rfl⟩ := compileTree_ok h
  have hs₁ : BodyState.Stands names.globals [] [] [] [] ⟨names.beginBody.openScope, .empty, .empty, .empty⟩ :=
    ⟨rfl, rfl, ⟨[], rfl, rfl⟩, rfl, by simp, rfl⟩
  have hs₂ := declareParams_stands hs₁ h₂
  rw [List.append_nil] at hs₂
  obtain ⟨inner, hstatements⟩ := statements_accesses ctx none (boundParams params) params.length
    (Stmt.ofTokens opening stop tokens)
  have hs₃ := hstatements [] params [] rfl s₂ _ s₃ hs₂ h₃
  obtain ⟨hlocals, hvars⟩ := finish_shows h₄
  exact ⟨hlocals.trans hs₃.locals_eq, hvars.trans hs₃.vars_eq⟩

end Body

theorem Instr.var?_retarget {σ τ ε : Type} {f : σ → Except ε τ} {i : Instr σ} {j : Instr τ}
    (h : i.retarget f = .ok j) : j.var? = i.var? := by
  cases i with
  | jump target | jumpIfFalse target =>
    obtain ⟨_, -, rfl⟩ := map_ok.mp h
    rfl
  | _ =>
    cases h
    rfl

def Chunk.vars (k : Chunk) : List Var := Instr.vars k.code.toList

theorem Assembly.finish_vars {a : Assembly} {k : Chunk} (h : a.finish locals = .ok k) :
    k.vars = Instr.vars (a.drafts.toList.map Draft.instr) ∧ k.locals = locals := by
  obtain ⟨entries, hentries, hk⟩ := bind_ok.mp h
  cases hk
  have hmap : entries.map (fun e => e.instr.var?) = a.drafts.toList.map fun d => d.instr.var? := by
    refine mapM_map hentries fun d e hd => ?_
    obtain ⟨j, hj, rfl⟩ := map_ok.mp hd
    exact Instr.var?_retarget hj
  refine ⟨?_, rfl⟩
  have hvars := congrArg (List.filterMap id) hmap
  simpa [Chunk.vars, Chunk.code, Instr.vars, List.filterMap_map, Function.comp_def] using hvars

namespace Script

/-- Variables bind lexically, and every declaration has a slot of its own. -/
theorem bodyCode_binds {ctx : BodyContext} {names : Names} {params : List Param} {body : Block} {k : Chunk}
    (h : bodyCode .chunks ctx names params body = .ok k) :
    ∃ tree, Stmt.Spelled body.closeLine body.tokens tree ∧
      (∀ other, Stmt.Spelled body.closeLine body.tokens other → other = tree) ∧
      k.locals.zipIdx = params.zipIdx ++ Stmt.allDeclared params.length tree ∧
      k.vars = Stmt.allAccesses names.globals (boundParams params) params.length tree := by
  obtain ⟨locals, s, hs, hk⟩ := bodyCode_ok h
  have hwhole := Body.compileTree_needs ctx params body.openLine body.closeLine body.tokens _ _ _ hs
  obtain ⟨hlocals, hvars⟩ := Body.compileTree_accesses hs
  obtain ⟨hkvars, hklocals⟩ := Assembly.finish_vars hk
  refine ⟨_, Stmt.ofTokens_spelled (Stmt.allUnbroken_of_whole _ hwhole), fun other hother =>
    hother.ofTokens.symm, ?_,
    hkvars.trans hvars⟩
  rw [hklocals, hlocals, List.zipIdx_append, Nat.zero_add, ← Stmt.allDeclared_zipIdx]

end Script

namespace Sample

def shadowSource : String :=
  "integer x = n; if (x) integer x = x; for (; x < n; x++) integer n = x; do integer n = total; while (n > x); \x7d"

def shadows : Block := ⟨(tokenize [] shadowSource).toOption.getD [], 1, 1, true⟩

theorem shadows_read :
    (Script.bodyCode .chunks bodyContext bodyNames [⟨"n", .integer⟩] shadows).isOk = true ∧
      Stmt.allDeclared 1 (Stmt.ofTokens 1 1 shadows.tokens) = [(⟨"x", .integer⟩, 1), (⟨"x", .integer⟩, 2),
        (⟨"n", .integer⟩, 3), (⟨"n", .integer⟩, 4)] ∧
      Stmt.allAccesses bodyNames.globals (boundParams [⟨"n", .integer⟩]) 1
        (Stmt.ofTokens 1 1 shadows.tokens) =
        [.loc 0, .loc 1, .loc 1, .loc 1, .loc 2, .loc 1, .loc 0, .loc 1, .loc 3, .loc 1, .loc 1,
          .glob 0, .loc 4,
          .loc 0, .loc 1] := by
  have hs : shadowSource.toList = _ := String.toList_ofList
  rw [shadows, tokenize_eq_charTokens hs]
  decide +kernel

end Sample

namespace Script

/-- The step and the test of the loops mean the `x` and the `n` outside, and so does an initializer. -/
theorem shadows_bind :
    ∃ k,
    bodyCode .chunks Sample.bodyContext Sample.bodyNames [⟨"n", .integer⟩] Sample.shadows = .ok k ∧
    k.locals.zipIdx = [(⟨"n", .integer⟩, 0), (⟨"x", .integer⟩, 1), (⟨"x", .integer⟩, 2), (⟨"n", .integer⟩, 3),
      (⟨"n", .integer⟩, 4)] ∧
    k.vars = [.loc 0, .loc 1, .loc 1, .loc 1, .loc 2, .loc 1, .loc 0, .loc 1, .loc 3, .loc 1, .loc 1,
      .glob 0, .loc 4,
      .loc 0, .loc 1] := by
  obtain ⟨hok, hdeclared, haccesses⟩ := Sample.shadows_read
  obtain ⟨k, hk⟩ := ok_of_isOk hok
  obtain ⟨tree, htree, -, hlocals, hvars⟩ := bodyCode_binds hk
  obtain rfl : Stmt.ofTokens 1 1 Sample.shadows.tokens = tree := htree.ofTokens
  refine ⟨k, hk, ?_, hvars.trans haccesses⟩
  rw [hlocals, List.length_singleton, hdeclared]
  rfl

end Script

end WorldScript
