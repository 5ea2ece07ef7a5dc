import WorldScript.Proofs.Blame
import WorldScript.Proofs.Stmt.Leaves
import WorldScript.Script.Compile

/-! # Scripts that are read

Reading the directives, the tokens and the declarations of a source fails over the script only.  The
tokens of a declaration are tokens of its script.
-/

namespace WorldScript

namespace Directive

theorem ofText_yields (line : Nat) (text : String) : Yields (ofText line text) fun _ => True := by
  unfold ofText
  split
  · split
    · trivial
    · exact Diagnostic.syntactic_blames _ _
  · trivial
  · exact Diagnostic.syntactic_blames _ _

theorem onLines_yields (replacements : Replacements) (number : Nat) (lines : List String) :
    Yields (onLines replacements number lines) fun _ => True := by
  induction lines generalizing number with
  | nil => trivial
  | cons line rest ih =>
    have hline : Yields (onLine? replacements number line) fun _ => True := by
      unfold onLine?
      split
      · trivial
      · exact (ofText_yields _ _).map fun _ _ => trivial
    exact hline.bind fun found _ => (ih _).bind fun others _ => trivial

theorem ofSource_yields (replacements : Replacements) (source : String) :
    Yields (ofSource replacements source) fun _ => True := onLines_yields _ _ _

end Directive

namespace Scan

theorem skipTrivia_yields (t : Trivia) (gs : List Glyph) : Yields (skipTrivia t gs) fun _ => True := by
  fun_induction skipTrivia t gs with
  | case1 | case2 | case3 | case5 | case6 | case7 | case8 => assumption
  | case4 | case10 => trivial
  | case9 => exact Diagnostic.lexical_blames _ _

theorem endNumber_yields (line : Nat) (text rest : List Char) :
    Yields (endNumber line text rest) fun _ => True := by
  unfold endNumber
  dsimp only
  split
  · trivial
  · exact Diagnostic.lexical_blames _ _

theorem hexNumber_yields (line : Nat) (chars : List Char) : Yields (hexNumber line chars) fun _ => True := by
  refine (endNumber_yields _ _ _).bind fun _ _ => ?_
  split
  · exact Diagnostic.lexical_blames _ _
  · trivial

theorem decimalNumber_yields (line : Nat) (chars : List Char) :
    Yields (decimalNumber line chars) fun _ => True := by
  unfold decimalNumber
  dsimp only
  split
  · exact Diagnostic.lexical_blames _ _
  · exact (endNumber_yields _ _ _).bind fun _ _ => trivial

theorem number_yields (line : Nat) (chars : List Char) : Yields (number line chars) fun _ => True := by
  unfold number
  split
  · exact hexNumber_yields _ _
  · exact hexNumber_yields _ _
  · exact decimalNumber_yields _ _

theorem lexeme_yields (line : Nat) (c : Char) (rest : List Char) :
    Yields (lexeme line c rest) fun _ => True := by
  unfold lexeme
  split
  · exact number_yields _ _
  · split
    · trivial
    · split
      · unfold stringLiteral
        split
        · exact Diagnostic.lexical_blames _ _
        · trivial
      · split
        · trivial
        · split
          · trivial
          · exact Diagnostic.lexical_blames _ _

theorem tokensFrom_blames {gs : List Glyph} {d : Diagnostic} (h : (tokensFrom gs).2 = some d) :
    d.BlamesScript := by
  fun_induction tokensFrom gs with
  | case1 gs problem hskip => exact Option.some.inj h ▸ (skipTrivia_yields .blank gs).of_error hskip
  | case2 gs hskip => exact absurd h (by simp)
  | case3 gs g rest hskip problem hlexeme => exact Option.some.inj h ▸ (lexeme_yields _ _ _).of_error hlexeme
  | case4 gs g rest hskip found hlexeme _ tokens stop hrest ih => exact ih (by rw [hrest]; exact h)

end Scan

/-- What keeps a source from being scanned is the fault of the script. -/
theorem tokenize_yields (replacements : Replacements) (source : String) :
    Yields (tokenize replacements source) fun _ => True := by
  unfold tokenize
  split
  · trivial
  · rename_i d h
    exact Scan.tokensFrom_blames (congrArg Prod.snd h)

def Declaration.tokens : Declaration → List Token
  | .global d => d.init
  | .function d => d.body.tokens
  | .state d => d.handlers.flatMap fun h => h.body.tokens

theorem Bracket.inside_yields (t : Token) (ts : List Token) :
    Yields (Bracket.inside t ts) fun r => r.1 ⊆ ts ∧ r.2 ⊆ ts := by
  cases h : Bracket.inside t ts with
  | ok r => exact Grammar.inside_subset h
  | error d =>
    obtain ⟨line, cause, rfl⟩ := Bracket.inside_error h
    exact Diagnostic.syntactic_blames _ _

namespace Header

theorem param_yields (line : Nat) (run : List Token) : Yields (param line run) fun _ => True := by
  unfold param
  split
  · split
    · trivial
    · exact Diagnostic.syntactic_blames _ _
  · exact Diagnostic.syntactic_blames _ _

theorem params_yields (opening : Token) (ts : List Token) : Yields (params opening ts) fun r => r.2 ⊆ ts := by
  refine (Bracket.inside_yields opening ts).bind ?_
  rintro ⟨inner, after⟩ ⟨-, hafter⟩
  have hlist : Yields (paramList opening.line inner) fun _ => True := by
    unfold paramList
    split
    · trivial
    · exact (Yields.mapM fun run _ => param_yields opening.line run).mono fun _ _ => trivial
  exact hlist.bind fun _ _ => hafter

end Header

namespace Declaration

theorem cut_subset (inState : Bool) (depth : Nat) (fresh : Bool) (ts : List Token) :
    (cut inState depth fresh ts).tokens ⊆ ts ∧ (cut inState depth fresh ts).rest ⊆ ts := by
  have happ := cut_append inState depth fresh ts
  exact ⟨fun x hx => happ ▸ List.mem_append_left _ hx, fun x hx => happ ▸ List.mem_append_right _ hx⟩

theorem block_yields (part : Part) (line : Nat) (inState : Bool) (ts : List Token) :
    Yields (block part line inState ts) fun r => r.1.tokens ⊆ ts ∧ r.2 ⊆ ts := by
  unfold block
  split
  · exact Diagnostic.syntactic_blames _ _
  · rename_i t rest
    split
    · obtain ⟨htokens, hrest⟩ := cut_subset inState 1 true rest
      exact ⟨List.subset_cons_of_subset t htokens, List.subset_cons_of_subset t hrest⟩
    · exact Diagnostic.syntactic_blames _ _

theorem withBody_yields (part : Part) (line : Nat) (inState : Bool) (opening : Token) (ts : List Token) :
    Yields (withBody part line inState opening ts) fun r => r.1.2.tokens ⊆ ts ∧ r.2 ⊆ ts := by
  refine (Header.params_yields opening ts).bind ?_
  rintro ⟨ps, after⟩ hafter
  refine (block_yields part line inState after).bind ?_
  rintro ⟨body, next⟩ ⟨hbody, hnext⟩
  exact ⟨List.Subset.trans hbody hafter, List.Subset.trans hnext hafter⟩

theorem functionTail_yields (returns : Option Ty) (name : String) (line : Nat) (opening : Token)
    (ts : List Token) :
    Yields (functionTail returns name line opening ts) fun r => r.1.tokens ⊆ ts ∧ r.2 ⊆ ts :=
  (withBody_yields _ _ _ _ _).bind fun _ h => h

theorem initializer_yields (name : String) (last depth : Nat) (ts : List Token) :
    Yields (initializer name last depth ts) fun r => r.1 ⊆ ts ∧ r.2 ⊆ ts := by
  induction ts generalizing depth with
  | nil => exact Diagnostic.syntactic_blames _ _
  | cons t rest ih =>
    have hcons (depth : Nat) : Yields (initializer.cons t (initializer name last depth rest)) fun r =>
        r.1 ⊆ t :: rest ∧ r.2 ⊆ t :: rest :=
      (ih depth).map fun _ h => ⟨List.cons_subset_cons t h.1, List.subset_cons_of_subset t h.2⟩
    unfold initializer
    split
    · exact Diagnostic.syntactic_blames _ _
    · exact Diagnostic.syntactic_blames _ _
    · exact hcons _
    · exact hcons _
    · exact hcons _
    · exact hcons _
    · split
      · exact ⟨List.nil_subset _, List.subset_cons_self t rest⟩
      · exact hcons _
    · exact hcons _

theorem typedTail_yields (ty : Ty) (line last : Nat) (ts : List Token) :
    Yields (typedTail ty line last ts) fun r => r.1.tokens ⊆ ts ∧ r.2 ⊆ ts := by
  unfold typedTail
  split
  · exact Diagnostic.syntactic_blames _ _
  · rename_i n rest
    split
    · exact Diagnostic.syntactic_blames _ _
    · split
      · exact Diagnostic.syntactic_blames _ _
      · rename_i t more
        have hmore : more ⊆ n :: t :: more := fun x hx => by simp [hx]
        split
        · exact (functionTail_yields _ _ _ _ _).mono fun _ h =>
            ⟨List.Subset.trans h.1 hmore, List.Subset.trans h.2 hmore⟩
        · exact ⟨List.nil_subset _, hmore⟩
        · exact (initializer_yields _ _ _ _).map fun _ h =>
            ⟨List.Subset.trans h.1 hmore, List.Subset.trans h.2 hmore⟩
        · exact Diagnostic.syntactic_blames _ _

theorem unfinishedState_yields (part : Part) (line : Nat) (closed : Bool) (ts : List Token) :
    Yields (unfinishedState part line closed ts) fun r => r.1 = [] ∧ r.2 ⊆ ts := by
  unfold unfinishedState
  split
  · exact Diagnostic.syntactic_blames _ _
  · exact ⟨rfl, List.Subset.refl _⟩

theorem handler_yields (part : Part) (t : Token) (rest : List Token) :
    Yields (handler part t rest) fun r => r.1.body.tokens ⊆ rest ∧ r.2 ⊆ rest := by
  unfold handler
  split
  · rename_i opening more _
    split
    · exact (withBody_yields _ _ _ _ _).map fun _ h =>
        ⟨List.subset_cons_of_subset opening h.1, List.subset_cons_of_subset opening h.2⟩
    · exact Diagnostic.syntactic_blames _ _
  · exact Diagnostic.syntactic_blames _ _

theorem handlers_yields (part : Part) (line : Nat) (closed : Bool) (ts : List Token) :
    Yields (handlers part line closed ts) fun r => (r.1.flatMap fun h => h.body.tokens) ⊆ ts ∧ r.2 ⊆ ts := by
  fun_induction handlers part line closed ts with
  | case1 closed => exact (unfinishedState_yields part line closed []).mono fun r h => by simp [h.1, h.2]
  | case2 closed t rest hh =>
    exact (unfinishedState_yields part line closed (t :: rest)).mono fun r h => by simp [h.1, h.2]
  | case3 closed t rest hh hc => exact ⟨List.nil_subset _, List.subset_cons_self t rest⟩
  | case4 closed t rest hh hc d hd => exact (handler_yields part t rest).of_error hd
  | case5 closed t rest hh hc d next hd _ ih =>
    obtain ⟨hbody, hnext⟩ : d.body.tokens ⊆ rest ∧ next ⊆ rest := (handler_yields part t rest).of_ok hd
    refine ih.map fun r h => ⟨?_, List.subset_cons_of_subset t (List.Subset.trans h.2 hnext)⟩
    rw [List.flatMap_cons]
    exact List.append_subset.mpr
      ⟨List.subset_cons_of_subset t hbody, List.subset_cons_of_subset t (List.Subset.trans h.1 hnext)⟩

theorem stateTail_yields (name : String) (line : Nat) (ts : List Token) :
    Yields (stateTail name line ts) fun r => r.1.tokens ⊆ ts ∧ r.2 ⊆ ts := by
  unfold stateTail
  split
  · exact Diagnostic.syntactic_blames _ _
  · rename_i t rest
    split
    · exact (handlers_yields _ _ _ _).map fun _ h =>
        ⟨List.subset_cons_of_subset t h.1, List.subset_cons_of_subset t h.2⟩
    · exact Diagnostic.syntactic_blames _ _

/-- A declaration is made of tokens of the script, or the script is to blame. -/
theorem ofToken_yields (last : Nat) (after : Option Part) (t : Token) (rest : List Token) :
    Yields (ofToken last after t rest) fun r => r.1.tokens ⊆ rest ∧ r.2 ⊆ rest := by
  unfold ofToken
  split
  · exact typedTail_yields _ _ _ _
  · rename_i opening more _
    split
    · exact (functionTail_yields _ _ _ _ _).mono fun _ h =>
        ⟨List.subset_cons_of_subset opening h.1, List.subset_cons_of_subset opening h.2⟩
    · exact Diagnostic.syntactic_blames _ _
  · exact stateTail_yields _ _ _
  · rename_i n more _
    split
    · exact (stateTail_yields _ _ _).mono fun _ h =>
        ⟨List.subset_cons_of_subset n h.1, List.subset_cons_of_subset n h.2⟩
    · exact Diagnostic.syntactic_blames _ _
  · exact Diagnostic.syntactic_blames _ _
  · exact Diagnostic.syntactic_blames _ _
  · exact Diagnostic.syntactic_blames _ _

theorem listFrom_yields (last : Nat) (after : Option Part) (ts : List Token) :
    Yields (listFrom last after ts) fun ds => ∀ d ∈ ds, d.tokens ⊆ ts := by
  fun_induction listFrom last after ts with
  | case1 => exact fun d hd => by cases hd
  | case2 after t rest d hd => exact (ofToken_yields last after t rest).of_error hd
  | case3 after t rest d next hd _ ih =>
    obtain ⟨htokens, hnext⟩ : d.tokens ⊆ rest ∧ next ⊆ rest := (ofToken_yields last after t rest).of_ok hd
    refine ih.map fun ds hds e he => ?_
    obtain rfl | he := List.mem_cons.mp he
    · exact List.subset_cons_of_subset t htokens
    · exact List.subset_cons_of_subset t (List.Subset.trans (hds e he) hnext)

theorem listOfTokens_yields (ts : List Token) : Yields (listOfTokens ts) fun ds => ∀ d ∈ ds, d.tokens ⊆ ts :=
  listFrom_yields _ _ _

end Declaration

namespace Outline

/-- The declarations of an outline by kind are among some declarations. -/
structure Drawn (ds : List Declaration) (o : Outline) : Prop where
  globals : ∀ d ∈ o.globals, .global d ∈ ds
  functions : ∀ d ∈ o.functions, .function d ∈ ds
  states : ∀ d ∈ o.states, .state d ∈ ds

theorem add_yields {o : Outline} {ds : List Declaration} {d : Declaration} (ho : o.Drawn ds) (hd : d ∈ ds) :
    Yields (o.add d) (Drawn ds) := by
  have hmore {α : Type} {as : List α} {a : α} {make : α → Declaration} (has : ∀ x ∈ as, make x ∈ ds)
      (ha : make a ∈ ds) : ∀ x ∈ as ++ [a], make x ∈ ds := by
    intro x hx
    obtain hx | hx := List.mem_append.mp hx
    · exact has x hx
    · exact List.mem_singleton.mp hx ▸ ha
  cases d with
  | global d =>
    have hname : Yields (o.names.declareGlobal d.name d.ty d.line) fun _ => True := by
      unfold Names.declareGlobal
      split
      · exact Diagnostic.semantic_blames _ _
      · trivial
    exact hname.map fun _ _ => ⟨hmore ho.globals hd, ho.functions, ho.states⟩
  | function d =>
    have hname : Yields (o.names.declareFunction d.signature d.line) fun _ => True := by
      unfold Names.declareFunction
      split
      · exact Diagnostic.semantic_blames _ _
      · trivial
    exact hname.map fun _ _ => ⟨ho.globals, hmore ho.functions hd, ho.states⟩
  | state d =>
    have hname : Yields (o.names.declareState d.name d.line) fun _ => True := by
      unfold Names.declareState
      split
      · exact Diagnostic.semantic_blames _ _
      · trivial
    exact hname.map fun _ _ => ⟨ho.globals, ho.functions, hmore ho.states hd⟩

theorem addAll_drawn {o : Outline} {all ds : List Declaration} (ho : o.Drawn all) (hds : ds ⊆ all) :
    (o.addAll ds).1.Drawn all ∧ ∀ d ∈ (o.addAll ds).2, d.BlamesScript := by
  induction ds generalizing o with
  | nil => exact ⟨ho, by simp [addAll]⟩
  | cons d rest ih =>
    obtain ⟨hd, hrest⟩ := List.cons_subset.mp hds
    have hadd : Yields (o.add d) (Drawn all) := add_yields ho hd
    cases h : o.add d with
    | ok more =>
      simp only [addAll, h]
      exact ih (hadd.of_ok h) hrest
    | error problem =>
      obtain ⟨hdrawn, hproblems⟩ := ih ho hrest
      simp only [addAll, h]
      refine ⟨hdrawn, fun e he => ?_⟩
      obtain rfl | he := List.mem_cons.mp he
      · exact hadd.of_error h
      · exact hproblems e he

/-- An outline has only what was declared. -/
theorem ofDeclarations_drawn (ds : List Declaration) :
    (ofDeclarations ds).1.Drawn ds ∧ ∀ d ∈ (ofDeclarations ds).2, d.BlamesScript :=
  addAll_drawn ⟨nofun, nofun, nofun⟩ (List.Subset.refl _)

theorem handlerProblems_blame (r : Registry) (v : Visibility) (state : String) (before : List String)
    (ds : List HandlerDecl) : ∀ d ∈ handlerProblems r v state before ds, d.BlamesScript := by
  induction ds generalizing before with
  | nil => simp [handlerProblems]
  | cons h rest ih =>
    intro d hd
    obtain hd | hd := List.mem_append.mp hd
    · unfold handlerProblem? at hd
      split at hd
      · simp at hd
        exact hd ▸ Diagnostic.semantic_blames _ _
      · split at hd
        · simp at hd
          exact hd ▸ Diagnostic.semantic_blames _ _
        · split at hd
          · simp at hd
          · simp at hd
            exact hd ▸ Diagnostic.semantic_blames _ _
    · exact ih _ d hd

/-- What the rules for an outline find is the fault of the script. -/
theorem problems_blame (o : Outline) (r : Registry) (v : Visibility) (last : Nat) :
    ∀ d ∈ o.problems r v last, d.BlamesScript := by
  intro d hd
  simp only [problems, List.mem_append, List.mem_filterMap, List.mem_flatMap] at hd
  obtain ((⟨g, -, hg⟩ | ⟨f, -, hf⟩) | hdefault) | ⟨s, -, hs⟩ := hd
  · unfold globalProblem? at hg
    split at hg
    · cases hg
      exact Diagnostic.semantic_blames _ _
    · cases hg
  · unfold functionProblem? at hf
    split at hf
    · cases hf
      exact Diagnostic.semantic_blames _ _
    · cases hf
  · unfold defaultProblem? at hdefault
    split at hdefault
    · simp at hdefault
    · simp at hdefault
      exact hdefault ▸ Diagnostic.semantic_blames _ _
  · exact handlerProblems_blame r v s.name [] s.handlers d hs

end Outline

end WorldScript
