import Mathlib.Data.List.Infix
import WorldScript.Proofs.Script.Findings
import WorldScript.Proofs.Script.Typing
import WorldScript.Proofs.Stmt.Leaves
import WorldScript.Report

/-! # Names that are declared twice

A second declaration of a name is noted and the reading of declarations goes on; a declaration that cannot
be read ends it.  What ends it is then all that is reported: the names noted before are lost.
-/

namespace WorldScript

open Grammar

namespace Grammar.SyntaxOnly

variable {α β : Type} {f : α → Except Diagnostic β}

theorem bind {r : Except Diagnostic α} (hr : SyntaxOnly r) (hf : ∀ a, SyntaxOnly (f a)) :
    SyntaxOnly (r >>= f) := by
  cases r with
  | ok a => exact hf a
  | error e => exact fun d hd => hr d (by cases hd; rfl)

theorem mapM (hf : ∀ a, SyntaxOnly (f a)) (as : List α) : SyntaxOnly (as.mapM f) := by
  induction as with
  | nil => exact .ok
  | cons a rest ih =>
    rw [List.mapM_cons]
    exact (hf a).bind fun b => ih.bind fun bs => .ok

end Grammar.SyntaxOnly

theorem Header.params_syntaxOnly (opening : Token) (ts : List Token) : SyntaxOnly (params opening ts) := by
  have hparam (line : Nat) (run : List Token) : SyntaxOnly (param line run) := by
    unfold param
    split
    · split
      · exact .ok
      · exact .error
    · exact .error
  have hinside : SyntaxOnly (Bracket.inside opening ts) := fun d hd => Bracket.inside_error hd
  refine hinside.bind fun r => ?_
  have hlist : SyntaxOnly (paramList opening.line r.1) := by
    unfold paramList
    split
    · exact .ok
    · exact .mapM (hparam opening.line) _
  exact hlist.bind fun ps => .ok

namespace Declaration

theorem withBody_syntaxOnly (part : Part) (line : Nat) (inState : Bool) (opening : Token) (ts : List Token) :
    SyntaxOnly (withBody part line inState opening ts) := by
  refine (Header.params_syntaxOnly opening ts).bind fun r => ?_
  have hblock : SyntaxOnly (block part line inState r.2) := by
    unfold block
    split
    · exact .error
    · split
      · exact .ok
      · exact .error
  exact hblock.bind fun b => .ok

theorem functionTail_syntaxOnly (returns : Option Ty) (name : String) (line : Nat) (opening : Token)
    (ts : List Token) : SyntaxOnly (functionTail returns name line opening ts) :=
  (withBody_syntaxOnly _ _ _ _ _).bind fun _ => .ok

theorem initializer_syntaxOnly (name : String) (last depth : Nat) (ts : List Token) :
    SyntaxOnly (initializer name last depth ts) := by
  induction ts generalizing depth with
  | nil => exact .error
  | cons t rest ih =>
    unfold initializer
    split
    · exact .error
    · exact .error
    · exact (ih _).map
    · exact (ih _).map
    · exact (ih _).map
    · exact (ih _).map
    · split
      · exact .ok
      · exact (ih _).map
    · exact (ih _).map

theorem typedTail_syntaxOnly (ty : Ty) (line last : Nat) (ts : List Token) :
    SyntaxOnly (typedTail ty line last ts) := by
  unfold typedTail
  split
  · exact .error
  · split
    · exact .error
    · split
      · exact .error
      · split
        · exact functionTail_syntaxOnly _ _ _ _ _
        · exact .ok
        · exact (initializer_syntaxOnly _ _ _ _).map
        · exact .error

theorem handler_syntaxOnly (part : Part) (t : Token) (rest : List Token) :
    SyntaxOnly (handler part t rest) := by
  unfold handler
  split
  · split
    · exact (withBody_syntaxOnly _ _ _ _ _).map
    · exact .error
  · exact .error

theorem handlers_syntaxOnly (part : Part) (line : Nat) (closed : Bool) (ts : List Token) :
    SyntaxOnly (handlers part line closed ts) := by
  have hunfinished (closed : Bool) (ts : List Token) : SyntaxOnly (unfinishedState part line closed ts) := by
    unfold unfinishedState
    split
    · exact .error
    · exact .ok
  fun_induction handlers part line closed ts with
  | case1 closed => exact hunfinished closed []
  | case2 closed t rest _ => exact hunfinished closed (t :: rest)
  | case3 => exact .ok
  | case4 closed t rest _ _ d hd =>
    rintro e ⟨⟩
    exact handler_syntaxOnly part t rest d hd
  | case5 closed t rest _ _ d next _ _ ih => exact ih.map

theorem stateTail_syntaxOnly (name : String) (line : Nat) (ts : List Token) :
    SyntaxOnly (stateTail name line ts) := by
  unfold stateTail
  split
  · exact .error
  · split
    · exact (handlers_syntaxOnly _ _ _ _).map
    · exact .error

theorem ofToken_syntaxOnly (last : Nat) (after : Option Part) (t : Token) (rest : List Token) :
    SyntaxOnly (ofToken last after t rest) := by
  unfold ofToken
  split
  · exact typedTail_syntaxOnly _ _ _ _
  · split
    · exact functionTail_syntaxOnly _ _ _ _ _
    · exact .error
  · exact stateTail_syntaxOnly _ _ _
  · split
    · exact stateTail_syntaxOnly _ _ _
    · exact .error
  · exact .error
  · exact .error
  · exact .error

/-- The declarations that are read one by one, and what ends the reading before the last token. -/
def metFrom (last : Nat) (after : Option Part) (ts : List Token) : List Declaration × Option Diagnostic :=
  match ts with
  | [] => ([], none)
  | t :: rest =>
    match h : ofToken last after t rest with
    | .error d => ([], some d)
    | .ok (d, next) =>
      have := ofToken_length h
      let more := metFrom last (d.part? <|> after) next
      (d :: more.1, more.2)
termination_by ts.length
decreasing_by simp only [List.length_cons]; omega

/-- The declarations of a script up to the first that cannot be read, and why that cannot be read. -/
def metOfTokens (ts : List Token) : List Declaration × Option Diagnostic := metFrom (lastLine 1 ts) none ts

theorem listFrom_eq_met (last : Nat) (after : Option Part) (ts : List Token) :
    listFrom last after ts = match (metFrom last after ts).2 with
      | none => .ok (metFrom last after ts).1
      | some d => .error d := by
  fun_induction metFrom last after ts with
  | case1 => rw [listFrom]
  | case2 after t rest d hd =>
    rw [listFrom]
    split
    · rename_i e he
      rw [hd] at he
      cases he
      rfl
    · rename_i he
      rw [hd] at he
      cases he
  | case3 after t rest d next hd _ more ih =>
    rw [listFrom]
    split
    · rename_i he
      rw [hd] at he
      cases he
    · rename_i he
      rw [hd] at he
      cases he
      rw [ih]
      cases (metFrom last (d.part? <|> after) next).2 <;> rfl

theorem metFrom_stop {last : Nat} {after : Option Part} {ts : List Token} {d : Diagnostic}
    (h : (metFrom last after ts).2 = some d) : ∃ line cause, d = .syntactic line cause := by
  fun_induction metFrom last after ts with
  | case1 => cases h
  | case2 after t rest e he =>
    obtain rfl : e = d := Option.some.inj h
    exact ofToken_syntaxOnly last after t rest e he
  | case3 after t rest e next _ _ more ih => exact ih h

end Declaration

theorem Outline.add_error {o : Outline} {d : Declaration} {problem : Diagnostic}
    (h : o.add d = .error problem) : ∃ line cause, problem = .semantic line cause := by
  cases d with
  | global decl =>
    have h := map_error.mp h
    unfold Names.declareGlobal at h
    split at h <;> cases h
    exact ⟨_, _, rfl⟩
  | function decl =>
    have h := map_error.mp h
    unfold Names.declareFunction at h
    split at h <;> cases h
    exact ⟨_, _, rfl⟩
  | state decl =>
    have h := map_error.mp h
    unfold Names.declareState at h
    split at h <;> cases h
    exact ⟨_, _, rfl⟩

theorem Outline.addAll_semantic (o : Outline) (ds : List Declaration) :
    ∀ problem ∈ (o.addAll ds).2, ∃ line cause, problem = .semantic line cause := by
  induction ds generalizing o with
  | nil => exact fun problem hp => by cases hp
  | cons d rest ih =>
    intro problem hp
    rw [addAll] at hp
    split at hp
    · exact ih _ problem hp
    · rename_i e he
      obtain rfl | hp := List.mem_cons.mp hp
      · exact add_error he
      · exact ih o problem hp

namespace Script

variable {registry : Registry} {replacements : Replacements} {source : String}
  {directives : List (Nat × Directive)} {tokens : List Token}

def duplicates (tokens : List Token) : List Diagnostic :=
  (Outline.ofDeclarations (Declaration.metOfTokens tokens).1).2

theorem findings_of_stop {d : Diagnostic} (h : Reads registry replacements source directives tokens)
    (hstop : (Declaration.metOfTokens tokens).2 = some d) (visibility : Visibility) :
    findings registry visibility replacements source = [d] := by
  rw [h.findings, Declaration.listOfTokens, Declaration.listFrom_eq_met]
  rw [Declaration.metOfTokens] at hstop
  rw [hstop]

theorem duplicates_come_first (h : Reads registry replacements source directives tokens)
    (hstop : (Declaration.metOfTokens tokens).2 = none) (visibility : Visibility) :
    duplicates tokens <+: findings registry visibility replacements source := by
  rw [h.findings, Declaration.listOfTokens, Declaration.listFrom_eq_met]
  rw [Declaration.metOfTokens] at hstop
  rw [hstop]
  exact List.prefix_append _ _

/-- All names that are declared twice are in the report, as far as it has room, if and only if the
declarations can be read to the end or no name was noted before.  A declaration that cannot be read is
reported alone. -/
theorem duplicates_reported_iff {registry : Registry} {replacements : Replacements} {source : String}
    {directives : List (Nat × Directive)} {tokens : List Token}
    (h : Reads registry replacements source directives tokens) (options : CompileOptions) :
    let report := reported (compile registry options replacements source)
    let stop := (Declaration.metOfTokens tokens).2
    ((duplicates tokens).take options.limit ⊆ report ↔ stop = none ∨ duplicates tokens = []) ∧
      (stop = none → (duplicates tokens).take options.limit <+: report) ∧
      ∀ d, stop = some d → report = [d] := by
  intro report stop
  have hfirst : stop = none → (duplicates tokens).take options.limit <+: report := by
    intro hstop
    have hfound := duplicates_come_first h hstop options.visibility
    rw [show report = _ from compile_reported registry options replacements source]
    exact List.IsPrefix.take hfound _
  have halone (d : Diagnostic) (hstop : stop = some d) : report = [d] := by
    rw [show report = _ from compile_reported registry options replacements source, findings_of_stop h hstop]
    exact List.take_of_length_le options.limit_pos
  refine ⟨⟨?_, ?_⟩, hfirst, halone⟩
  · intro hsubset
    cases hstop : stop with
    | none => exact .inl rfl
    | some d =>
      -- the only diagnostic of the report is about syntax, and no duplicate is
      refine .inr (List.eq_nil_iff_forall_not_mem.mpr fun problem hproblem => ?_)
      obtain ⟨first, rest, hfirst⟩ := List.exists_cons_of_ne_nil (List.ne_nil_of_mem hproblem)
      have hmem : first ∈ (duplicates tokens).take options.limit := by
        obtain ⟨n, hn⟩ := Nat.exists_eq_add_of_lt options.limit_pos
        rw [hfirst, hn]
        simp
      have hreport := hsubset hmem
      rw [halone d hstop, List.mem_singleton] at hreport
      obtain ⟨_, _, hsyntactic⟩ := Declaration.metFrom_stop hstop
      obtain ⟨_, _, hsemantic⟩ := Outline.addAll_semantic .empty _ first (List.mem_of_mem_take hmem)
      rw [hreport, hsyntactic] at hsemantic
      cases hsemantic
  · rintro (hstop | hnone)
    · exact (hfirst hstop).subset
    · simp [hnone]

end Script

namespace Sample

def doubled : String := "integer a;\ninteger a;\n\x7d"

theorem doubled_reads : ∃ directives tokens, Script.Reads registry [] doubled directives tokens ∧
    (Script.duplicates tokens).map Diagnostic.entry = [⟨.semantic, 2, "'a' is already declared"⟩] ∧
      (Declaration.metOfTokens tokens).2.isSome = true := by
  have hs : doubled.toList = _ := String.toList_ofList
  obtain ⟨tokens, hreads, hP⟩ := Script.exists_reads registry hs (by decide +kernel) (fun ts =>
    decide ((Script.duplicates ts).map Diagnostic.entry = [⟨.semantic, 2, "'a' is already declared"⟩]) &&
      (Declaration.metOfTokens ts).2.isSome) (by decide +kernel)
  rw [Bool.and_eq_true, decide_eq_true_eq] at hP
  exact ⟨[], tokens, hreads, hP⟩

end Sample

/-- The second declaration is noted and not reported. -/
theorem Script.doubled_not_reported : ∃ directives tokens,
    Reads Sample.registry [] Sample.doubled directives tokens ∧
      ¬ (duplicates tokens).take Sample.options.limit ⊆
        reported (compile Sample.registry Sample.options [] Sample.doubled) := by
  obtain ⟨directives, tokens, hreads, hduplicates, hstop⟩ := Sample.doubled_reads
  refine ⟨directives, tokens, hreads, fun hsubset => ?_⟩
  have hlost := (duplicates_reported_iff hreads Sample.options).1.mp hsubset
  rcases hlost with hnone | hnone
  · simp [hnone] at hstop
  · simp [hnone] at hduplicates

/-- The report on such a source has the brace and nothing else. -/
theorem Script.doubled_report_entries :
    (reported (compile Sample.registry Sample.options [] Sample.doubled)).map Diagnostic.entry =
        [⟨.syntactic, 3, "mismatched '\x7d': nothing is open at top level"⟩] ∧
      ∃ directives tokens, Reads Sample.registry [] Sample.doubled directives tokens ∧
        (duplicates tokens).map Diagnostic.entry = [⟨.semantic, 2, "'a' is already declared"⟩] := by
  refine ⟨by decide +kernel, ?_⟩
  obtain ⟨directives, tokens, hreads, hduplicates, -⟩ := Sample.doubled_reads
  exact ⟨directives, tokens, hreads, hduplicates⟩

end WorldScript
