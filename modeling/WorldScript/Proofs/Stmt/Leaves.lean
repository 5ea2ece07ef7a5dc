import WorldScript.Proofs.Stmt.Reading
import WorldScript.Proofs.Term.Leaves

/-! # Leaves of statements

The terms of a statement that is read come from its tokens, and what breaks a statement off is a
problem of syntax.
-/

namespace WorldScript

mutual

def Stmt.All (L : LeafSet) : Stmt → Prop
  | .empty | .changeState _ _ | .jump _ _ | .breakLoop _ | .continueLoop _ => True
  | .block body => Stmt.AllOf L body
  | .declare _ _ init _ => ∀ t ∈ init, t.All L
  | .expr t _ => t.All L
  | .ret value _ => ∀ t ∈ value, t.All L
  | .branch c body tail _ => c.All L ∧ Stmt.AllOf L body ∧ tail.All L
  | .whileLoop c body _ _ => c.All L ∧ Stmt.AllOf L body
  | .forLoop init c step body _ _ =>
    Term.AllOf L init ∧ (∀ t ∈ c, t.All L) ∧ Term.AllOf L step ∧ Stmt.AllOf L body
  | .doLoop body c _ _ => Stmt.AllOf L body ∧ c.All L
  | .broken d => L.problem d
termination_by structural s => s

def Stmt.AllOf (L : LeafSet) : List Stmt → Prop
  | [] => True
  | s :: rest => s.All L ∧ Stmt.AllOf L rest
termination_by structural body => body

def Tail.All (L : LeafSet) : Tail → Prop
  | .done _ => True
  | .elseIf c body tail _ => c.All L ∧ Stmt.AllOf L body ∧ tail.All L
  | .elseArm body _ _ => Stmt.AllOf L body
termination_by structural t => t

end

namespace Grammar

variable {L : LeafSet} {lines : BodyLines} {α : Type} {line : Nat} {ts rest : List Token}

def SyntaxOnly {α : Type} (r : Except Diagnostic α) : Prop :=
  ∀ d, r = .error d → ∃ line cause, d = .syntactic line cause

theorem SyntaxOnly.map {β : Type} {f : α → β} {r : Except Diagnostic α} (h : SyntaxOnly r) :
    SyntaxOnly (r.map f) := by
  intro d hd
  cases r with
  | error e => exact h d (by cases hd; rfl)
  | ok a => cases hd

theorem SyntaxOnly.ok {a : α} : SyntaxOnly (.ok a : Except Diagnostic α) := by
  intro d hd
  cases hd

theorem SyntaxOnly.error {cause : Syntactic} :
    SyntaxOnly (.error (.syntactic line cause) : Except Diagnostic α) := by
  rintro d ⟨⟩
  exact ⟨line, cause, rfl⟩

theorem untilSemicolon_syntaxOnly {after : String} {depth : Nat} :
    SyntaxOnly (untilSemicolon lines after depth ts) := by
  induction ts generalizing depth with
  | nil => exact .error
  | cons t rest ih =>
    unfold untilSemicolon
    dsimp only
    split
    · exact ih.map
    · exact ih.map
    · exact ih.map
    · exact ih.map
    · exact .error
    · exact .error
    · split
      · exact .ok
      · exact ih.map
    · exact ih.map

theorem semicolon_syntaxOnly {after : String} : SyntaxOnly (semicolon lines after ts) := by
  unfold semicolon
  split
  · exact .error
  · split
    · exact .ok
    · exact .error

theorem parenthesized_syntaxOnly {construct : Construct} : SyntaxOnly (parenthesized lines construct ts) := by
  unfold parenthesized
  split
  · exact .error
  · split
    · exact fun d hd => Bracket.inside_error hd
    · exact .error

theorem declaration_syntaxOnly {ty : Ty} : SyntaxOnly (declaration lines ty line ts) := by
  unfold declaration
  split
  · exact .error
  · split
    · exact .error
    · split
      · exact .error
      · split
        · exact .ok
        · split
          · exact untilSemicolon_syntaxOnly.map
          · exact .error

theorem changing_syntaxOnly : SyntaxOnly (changing lines line ts) := by
  unfold changing
  split
  · exact .error
  · split
    · exact .error
    · exact semicolon_syntaxOnly.map

theorem jumping_syntaxOnly : SyntaxOnly (jumping lines line ts) := by
  unfold jumping
  split
  · exact .error
  · split
    · exact .error
    · exact semicolon_syntaxOnly.map

/-- Only its syntax keeps a statement from being read. -/
theorem plainStatement_syntaxOnly {t : Token} : SyntaxOnly (plainStatement lines t ts) := by
  unfold plainStatement
  split
  · exact .ok
  · exact declaration_syntaxOnly
  · exact untilSemicolon_syntaxOnly.map
  · exact changing_syntaxOnly
  · exact jumping_syntaxOnly
  · exact semicolon_syntaxOnly.map
  · exact semicolon_syntaxOnly.map
  · exact .error
  · exact untilSemicolon_syntaxOnly.map

theorem SyntaxOnly.problem {r : Except Diagnostic α} {d : Diagnostic} (hr : SyntaxOnly r) (h : L.Admits ts)
    (hd : r = .error d) : L.problem d := by
  obtain ⟨line, cause, rfl⟩ := hr d hd
  exact h.syntactic line cause

theorem Ends.subset {run : List Token} (h : Ends run ts rest) : run ⊆ ts ∧ rest ⊆ ts := by
  obtain ⟨semi, -, rfl⟩ := h
  exact ⟨List.subset_append_left _ _, fun x hx => by simp [hx]⟩

theorem Encloses.subset {inner : List Token} (h : Encloses inner ts rest) : inner ⊆ ts ∧ rest ⊆ ts := by
  obtain ⟨t, more, rfl, -, hi⟩ := h
  obtain ⟨hinner, hrest⟩ := inside_subset hi
  exact ⟨List.subset_cons_of_subset t hinner, List.subset_cons_of_subset t hrest⟩

theorem runsBetween_subset {separator : TokenKind} {run : List Token} (h : run ∈ runsBetween separator ts) :
    run ⊆ ts := by
  induction ts generalizing run with
  | nil =>
    obtain rfl : run = [] := by simpa [runsBetween] using h
    exact List.nil_subset _
  | cons t rest ih =>
    unfold runsBetween at h
    split at h
    · obtain rfl | h := List.mem_cons.mp h
      · exact List.nil_subset _
      · exact List.subset_cons_of_subset t (ih h)
    · split at h
      · obtain rfl : run = [t] := by simpa using h
        exact fun x hx => by simp_all
      · rename_i first more hruns
        obtain rfl | h := List.mem_cons.mp h
        · exact List.cons_subset_cons t (ih (by simp [hruns]))
        · exact List.subset_cons_of_subset t (ih (by simp [hruns, h]))

theorem Plain.all {t : Token} {s : Stmt} (h : L.Admits (t :: ts)) (hp : Plain (t :: ts) s rest) :
    s.All L ∧ rest ⊆ ts := by
  cases hp with
  | empty ht => exact ⟨trivial, List.Subset.refl _⟩
  | declare ht hn he => exact ⟨by simp [Stmt.All], List.subset_cons_of_subset _ he.subset.2⟩
  | @declareInit _ n sign run us _ ty name ht hn hs hr he =>
    have hsub : us ⊆ t :: n :: sign :: us := fun x hx => by simp [hx]
    refine ⟨?_, List.Subset.trans he.subset.2 fun x hx => by simp [hx]⟩
    rintro term ⟨⟩
    exact Term.ofTokens_all (h.mono (List.Subset.trans he.subset.1 hsub))
  | expr ht hr he =>
    exact ⟨Term.ofTokens_all (h.mono (List.cons_subset_cons t he.subset.1)), he.subset.2⟩
  | ret ht he => exact ⟨by simp [Stmt.All], he.subset.2⟩
  | retValue ht hr hne he =>
    refine ⟨?_, he.subset.2⟩
    rintro term ⟨⟩
    exact Term.ofTokens_all (h.mono (List.subset_cons_of_subset t he.subset.1))
  | changeState ht hn he => exact ⟨trivial, List.subset_cons_of_subset _ he.subset.2⟩
  | jump ht hn he => exact ⟨trivial, List.subset_cons_of_subset _ he.subset.2⟩
  | breakLoop ht he => exact ⟨trivial, he.subset.2⟩
  | continueLoop ht he => exact ⟨trivial, he.subset.2⟩

theorem conditionTerm_all (h : L.Admits ts) : (conditionTerm line ts).All L := by
  unfold conditionTerm
  split
  · exact h.syntactic _ _
  · exact Term.ofTokens_all h

theorem loopTest_all (h : L.Admits ts) : (loopTest lines ts).Holds (Term.All L) := by
  cases ts with
  | nil => exact ⟨h.syntactic _ _, List.nil_subset _⟩
  | cons t rest =>
    have hcons := List.subset_cons_self t rest
    refine Parsed.holds_of_read loopTest_cons ?_
    split
    · cases hp : parenthesized lines .doLoop rest with
      | error d => exact ⟨parenthesized_syntaxOnly.problem h hp, List.nil_subset _⟩
      | ok found =>
        obtain ⟨test, next⟩ := found
        obtain ⟨htest, hnext⟩ := (parenthesized_iff.mp hp).subset
        dsimp only
        cases hs : semicolon lines "\"do … while\" condition" next with
        | error d => exact ⟨semicolon_syntaxOnly.problem h hs, List.nil_subset _⟩
        | ok after =>
          exact ⟨conditionTerm_all (h.mono (List.Subset.trans htest hcons)),
            List.Subset.trans (List.Subset.trans (semicolon_iff.mp hs).subset.2 hnext) hcons⟩
    · exact ⟨h.syntactic _ _, List.nil_subset _⟩

theorem forHeader_all {header init test step : List Token} (h : L.Admits ts) (hsub : header ⊆ ts)
    (hruns : runsBetween .semicolon header = [init, test, step]) :
    Term.AllOf L (Term.listOfTokens line init) ∧
      (∀ t ∈ (if test.isEmpty then none else some (Term.ofTokens line test)), t.All L) ∧
      Term.AllOf L (Term.listOfTokens line step) := by
  have hrun (run : List Token) (hr : run ∈ [init, test, step]) : L.Admits run :=
    h.mono (List.Subset.trans (runsBetween_subset (hruns ▸ hr)) hsub)
  refine ⟨Term.listOfTokens_all (hrun init (by simp)), ?_, Term.listOfTokens_all (hrun step (by simp))⟩
  intro t ht
  split at ht
  · cases ht
  · obtain rfl : Term.ofTokens line test = t := by simpa using ht
    exact Term.ofTokens_all (hrun test (by simp))

-- the measure is that of the functions that read
mutual

/-- The leaves of a statement that is read come from its tokens. -/
theorem statement_all (inside : Construct) (t : Token) (ts : List Token) (h : L.Admits (t :: ts)) :
    (statement lines inside t ts).Holds (Stmt.All L) := by
  have hcons := List.subset_cons_self t ts
  cases hc : startsConstruct t with
  | false =>
    refine Parsed.holds_of_read (statement_plain hc) ?_
    cases hp : plainStatement lines t ts with
    | error d => exact ⟨plainStatement_syntaxOnly.problem h hp, List.nil_subset _⟩
    | ok found => exact (plain_of_plainStatement hc hp).all h
  | true =>
    unfold startsConstruct at hc
    split at hc
    · rename_i ht
      have hbody := braced_all .block t.line ts (h.mono hcons)
      exact Parsed.holds_of_read (statement_braces ht) hbody
    · rename_i ht
      refine Parsed.holds_of_read (statement_branch ht) ?_
      cases hp : parenthesized lines .ifArm ts with
      | error d => exact ⟨parenthesized_syntaxOnly.problem h hp, List.nil_subset _⟩
      | ok found =>
        obtain ⟨test, first⟩ := found
        have hlt := parenthesized_length hp
        obtain ⟨htest, hfirst⟩ := (parenthesized_iff.mp hp).subset
        have hle := (bodyOf lines .ifArm t.line first).rest_le
        have hbody := bodyOf_all .ifArm t.line first (h.mono (List.Subset.trans hfirst hcons))
        have hnext := List.Subset.trans hbody.2 hfirst
        have htail := conditionalTail_all (bodyOf lines .ifArm t.line first).rest
          (h.mono (List.Subset.trans hnext hcons))
        have htests := h.mono (List.Subset.trans htest hcons)
        exact ⟨⟨conditionTerm_all htests, hbody.1, htail.1⟩, List.Subset.trans htail.2 hnext⟩
    · rename_i ht
      refine Parsed.holds_of_read (statement_whileLoop ht) ?_
      cases hp : parenthesized lines .whileLoop ts with
      | error d => exact ⟨parenthesized_syntaxOnly.problem h hp, List.nil_subset _⟩
      | ok found =>
        obtain ⟨test, first⟩ := found
        have hlt := parenthesized_length hp
        obtain ⟨htest, hfirst⟩ := (parenthesized_iff.mp hp).subset
        have hbody := bodyOf_all .whileLoop t.line first (h.mono (List.Subset.trans hfirst hcons))
        exact ⟨⟨conditionTerm_all (h.mono (List.Subset.trans htest hcons)), hbody.1⟩,
          List.Subset.trans hbody.2 hfirst⟩
    · rename_i ht
      refine Parsed.holds_of_read (statement_forLoop ht) ?_
      cases hp : parenthesized lines .forLoop ts with
      | error d => exact ⟨parenthesized_syntaxOnly.problem h hp, List.nil_subset _⟩
      | ok found =>
        obtain ⟨header, first⟩ := found
        have hlt := parenthesized_length hp
        obtain ⟨hheader, hfirst⟩ := (parenthesized_iff.mp hp).subset
        dsimp only
        split
        · rename_i init test step hruns
          obtain ⟨hinit, htest, hstep⟩ := forHeader_all h (List.Subset.trans hheader hcons) hruns
          have hbody := bodyOf_all .forLoop t.line first (h.mono (List.Subset.trans hfirst hcons))
          exact ⟨⟨hinit, htest, hstep, hbody.1⟩, List.Subset.trans hbody.2 hfirst⟩
        · exact ⟨h.syntactic _ _, List.nil_subset _⟩
    · rename_i ht
      have hbody := bodyOf_all .doLoop t.line ts (h.mono hcons)
      have htest : (loopTest lines (bodyOf lines .doLoop t.line ts).rest).Holds (Term.All L) :=
        loopTest_all (h.mono (List.Subset.trans hbody.2 hcons))
      exact Parsed.holds_of_read (statement_doLoop ht) ⟨⟨hbody.1, htest.1⟩, List.Subset.trans htest.2 hbody.2⟩
    · rename_i ht
      exact Parsed.holds_of_read (statement_else ht) ⟨h.syntactic _ _, List.nil_subset _⟩
    · cases hc
termination_by 3 * ts.length + 2
decreasing_by all_goals omega

theorem braced_all (construct : Construct) (line : Nat) (ts : List Token) (h : L.Admits ts) :
    (braced lines construct line ts).Holds (Stmt.AllOf L) := by
  match ts with
  | [] =>
    rw [braced]
    exact ⟨⟨h.syntactic _ _, trivial⟩, List.nil_subset _⟩
  | t :: ts =>
    have hcons := List.subset_cons_self t ts
    by_cases ht : t.kind = .closeBrace
    · exact Parsed.holds_of_read (braced_close ht) ⟨trivial, hcons⟩
    · have hle := (statement lines construct t ts).rest_le
      have hfirst := statement_all construct t ts h
      have hnext := List.Subset.trans hfirst.2 hcons
      have hothers := braced_all construct line (statement lines construct t ts).rest (h.mono hnext)
      exact Parsed.holds_of_read (braced_more ht) ⟨⟨hfirst.1, hothers.1⟩, List.Subset.trans hothers.2 hnext⟩
termination_by 3 * ts.length + 1
decreasing_by all_goals simp only [List.length_cons] at *; omega

theorem bodyOf_all (construct : Construct) (line : Nat) (ts : List Token) (h : L.Admits ts) :
    (bodyOf lines construct line ts).Holds (Stmt.AllOf L) := by
  match ts with
  | [] =>
    rw [bodyOf]
    exact ⟨⟨h.syntactic _ _, trivial⟩, List.nil_subset _⟩
  | t :: ts =>
    have hcons := List.subset_cons_self t ts
    by_cases ho : t.kind = .openBrace
    · have hbody := braced_all construct line ts (h.mono hcons)
      exact Parsed.holds_of_read (bodyOf_braced ho) ⟨hbody.1, List.Subset.trans hbody.2 hcons⟩
    · by_cases hc : t.kind = .closeBrace
      · rw [bodyOf]
        simp only [Token.is, hc]
        exact ⟨⟨h.syntactic _ _, trivial⟩, List.nil_subset _⟩
      · have hfirst := statement_all construct t ts h
        exact Parsed.holds_of_read (bodyOf_single ho hc) ⟨⟨hfirst.1, trivial⟩,
          List.Subset.trans hfirst.2 hcons⟩
termination_by 3 * ts.length + 1
decreasing_by all_goals simp only [List.length_cons] at *; omega

theorem conditionalTail_all (ts : List Token) (h : L.Admits ts) :
    (conditionalTail lines ts).Holds (Tail.All L) := by
  by_cases hd : ∀ t more, ts = t :: more → t.kind ≠ .keyword .elseWord
  · exact Parsed.holds_of_read (conditionalTail_done hd) ⟨trivial, List.Subset.refl _⟩
  · match ts with
    | [] => exact absurd nofun hd
    | [t] =>
      have ht : t.kind = .keyword .elseWord := by simpa using hd
      exact Parsed.holds_of_read (conditionalTail_lone ht) ⟨⟨h.syntactic _ _, trivial⟩, List.nil_subset _⟩
    | t :: i :: more =>
      have ht : t.kind = .keyword .elseWord := by simpa using hd
      have hcons := List.subset_cons_self t (i :: more)
      by_cases hi : i.kind = .keyword .ifWord
      · refine Parsed.holds_of_read (conditionalTail_elseIf ht hi) ?_
        have hmore : more ⊆ t :: i :: more := subset_tail hcons
        cases hp : parenthesized lines .elseIfArm more with
        | error d =>
          exact ⟨⟨parenthesized_syntaxOnly.problem h hp, trivial, trivial⟩, List.nil_subset _⟩
        | ok found =>
          obtain ⟨test, first⟩ := found
          have hlt := parenthesized_length hp
          obtain ⟨htest, hfirst⟩ := (parenthesized_iff.mp hp).subset
          have hle := (bodyOf lines .elseIfArm t.line first).rest_le
          have hbody := bodyOf_all .elseIfArm t.line first (h.mono (List.Subset.trans hfirst hmore))
          have hnext := List.Subset.trans (List.Subset.trans hbody.2 hfirst) hmore
          have htail := conditionalTail_all (bodyOf lines .elseIfArm t.line first).rest (h.mono hnext)
          have htests := h.mono (List.Subset.trans htest hmore)
          exact ⟨⟨conditionTerm_all htests, hbody.1, htail.1⟩, List.Subset.trans htail.2 hnext⟩
      · have hbody := bodyOf_all .elseArm t.line (i :: more) (h.mono hcons)
        exact Parsed.holds_of_read (conditionalTail_elseArm ht hi) ⟨hbody.1, List.Subset.trans hbody.2 hcons⟩
termination_by 3 * ts.length + 1
decreasing_by all_goals simp only [List.length_cons] at *; omega

end

theorem entry_all (line : Nat) (ts : List Token) (h : L.Admits ts) : Stmt.AllOf L (entry lines line ts) := by
  match ts with
  | [] =>
    rw [entry]
    exact ⟨h.syntactic _ _, trivial⟩
  | t :: ts =>
    by_cases ht : t.kind = .closeBrace
    · rw [entry_close ht]
      split
      · trivial
      · exact ⟨h.syntactic _ _, trivial⟩
    · have hle := (statement lines .entry t ts).rest_le
      have hfirst : (statement lines .entry t ts).Holds (Stmt.All L) := statement_all .entry t ts h
      rw [entry_more ht]
      have hnext := h.mono (List.subset_cons_of_subset t hfirst.2)
      exact ⟨hfirst.1, entry_all line (statement lines .entry t ts).rest hnext⟩
termination_by ts.length
decreasing_by simp only [List.length_cons]; omega

end Grammar

/-- The leaves of the statements of a body. -/
theorem Stmt.ofTokens_all {L : LeafSet} {start stop : Nat} {ts : List Token} (h : L.Admits ts) :
    Stmt.AllOf L (Stmt.ofTokens start stop ts) :=
  Grammar.entry_all start ts h

end WorldScript
