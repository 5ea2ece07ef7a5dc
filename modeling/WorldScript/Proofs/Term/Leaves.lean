import WorldScript.Proofs.Term.Chain
import WorldScript.Proofs.Term.Parsing
import WorldScript.Proofs.Token.Bracket

/-! # Leaves of terms

The literals of a term that is read come from its tokens, and what breaks a term off is a problem of
syntax.
-/

namespace WorldScript

variable {L : LeafSet} {ts : List Token}

structure LeafSet where
  value : Value → Prop
  problem : Diagnostic → Prop

mutual

def Term.All (L : LeafSet) : Term → Prop
  | .literal v _ => L.value v
  | .name _ _ | .label _ _ => True
  | .call _ ts _ | .list ts _ | .angle ts _ => Term.AllOf L ts
  | .cast _ t _ | .unary _ t _ | .step _ _ t _ | .member t _ _ => t.All L
  | .binary _ l r _ | .assign _ l r _ => l.All L ∧ r.All L
  | .broken d => L.problem d
  | .brokenAfter t d => t.All L ∧ L.problem d
termination_by structural t => t

def Term.AllOf (L : LeafSet) : List Term → Prop
  | [] => True
  | t :: ts => t.All L ∧ Term.AllOf L ts
termination_by structural ts => ts

end

structure LeafSet.Admits (L : LeafSet) (ts : List Token) : Prop where
  literal : ∀ t ∈ ts, ∀ v, Grammar.literal? t = some v → L.value v
  integer : ∀ t ∈ ts, ∀ i, t.kind = .integer i → L.value (.integer (-i))
  float : ∀ t ∈ ts, ∀ x, t.kind = .float x → L.value (.float (-x))
  syntactic : ∀ line cause, L.problem (.syntactic line cause)

theorem LeafSet.Admits.mono {us : List Token} (h : L.Admits ts) (hsub : us ⊆ ts) : L.Admits us :=
  ⟨fun t ht => h.literal t (hsub ht), fun t ht => h.integer t (hsub ht), fun t ht => h.float t (hsub ht),
    h.syntactic⟩

namespace Grammar

variable {L : LeafSet} {line : Nat} {links : List Link} {ts rest : List Token} {o : Token}

def ChainAll (L : LeafSet) (c : Term × List Link) : Prop := c.1.All L ∧ ∀ l ∈ c.2, l.operand.All L

theorem Join.all_term {j : Join} (hj : ∃ s, Join.ofSymbol? s = some j) {a b : Term} :
    (j.term line a b).All L ↔ a.All L ∧ b.All L := by
  obtain ⟨s, hs⟩ := hj
  cases j with
  | value op => exact Iff.rfl
  | store assignment => exact Iff.rfl
  | formless symbol =>
    unfold Join.ofSymbol? at hs
    cases ha : Assignment.ofSymbol? s <;> simp [ha] at hs

/-- Grouping a chain keeps its operands. -/
theorem groupTier_all (tier : Tier) (first : Term)
    (hjoin : ∀ j ∈ links.map Link.join, ∃ s, Join.ofSymbol? s = some j) :
    ChainAll L (groupTier tier first links) ↔ ChainAll L (first, links) := by
  unfold groupTier
  split
  · induction links generalizing first with
    | nil => rfl
    | cons l rest ih =>
      obtain ⟨hl, hmore⟩ := List.forall_mem_cons.mp hjoin
      have hrest := ih l.operand hmore
      simp only [ChainAll] at hrest
      cases h : l.isOf tier with
      | true =>
        simp only [groupRight, ChainAll, h, if_true, Join.all_term hl, and_assoc, hrest, List.forall_mem_cons]
      | false => simp [groupRight, ChainAll, h, hrest]
  · induction links generalizing first with
    | nil => rfl
    | cons l rest ih =>
      obtain ⟨hl, hmore⟩ := List.forall_mem_cons.mp hjoin
      have hfirst := ih (l.join.term l.line first l.operand) hmore
      have hrest := ih l.operand hmore
      simp only [ChainAll] at hfirst hrest
      cases h : l.isOf tier with
      | true => simp [groupLeft, ChainAll, h, hfirst, Join.all_term hl, and_assoc]
      | false => simp [groupLeft, ChainAll, h, hrest]

theorem groupTiers_all (first : Term) (tiers : List Tier)
    (hjoin : ∀ j ∈ links.map Link.join, ∃ s, Join.ofSymbol? s = some j) :
    ChainAll L (groupTiers first links tiers) ↔ ChainAll L (first, links) := by
  induction tiers generalizing first links with
  | nil => rfl
  | cons tier looser ih =>
    have hrest : ∀ j ∈ (groupTier tier first links).2.map Link.join, ∃ s, Join.ofSymbol? s = some j := by
      rw [groupTier_joins]
      exact fun j hj => hjoin j (List.mem_filter.mp hj).1
    exact (ih _ hrest).trans (groupTier_all tier first hjoin)

theorem ofChain_all {first : Term} (hjoin : ∀ j ∈ links.map Link.join, ∃ s, Join.ofSymbol? s = some j) :
    (ofChain first links).All L ↔ ChainAll L (first, links) := by
  rw [← groupTiers_all first (Tier.table.drop Tier.firstBinary) hjoin, ChainAll, groupTiers_complete hjoin]
  simp [ofChain]

theorem chain_joins {last : Nat} {angle : Bool} (ts : List Token) :
    ∀ j ∈ (chain last angle ts).value.map Link.join, ∃ s, Join.ofSymbol? s = some j := by
  intro j hj
  match ts with
  | [] =>
    rw [show (chain last angle []).value = [] from congrArg Prod.fst chain_nil] at hj
    simp at hj
  | t :: rest =>
    cases ht : join? angle t with
    | none =>
      rw [show (chain last angle (t :: rest)).value = [] from congrArg Prod.fst (chain_stop ht)] at hj
      simp at hj
    | some k =>
      have hlink : (chain last angle (t :: rest)).value = _ := congrArg Prod.fst (chain_link ht)
      rw [hlink] at hj
      obtain rfl | hrest := List.mem_cons.mp hj
      · obtain ⟨s, -, hs, -⟩ := join?_eq_some.mp ht
        exact ⟨s, hs⟩
      · have := (operand last angle rest).rest_le
        exact chain_joins (operand last angle rest).rest j hrest
termination_by ts.length
decreasing_by
  simp only [List.length_cons]
  omega

def Parsed.Holds {α : Type} {ts : List Token} (p : Parsed α ts) (P : α → Prop) : Prop :=
  P p.value ∧ p.rest ⊆ ts

theorem Parsed.holds_of_read {α : Type} {p : Parsed α ts} {P : α → Prop} {r : α × List Token}
    (h : p.read = r) (hr : P r.1 ∧ r.2 ⊆ ts) : p.Holds P := by
  subst h
  exact hr

theorem subset_tail {t : Token} (h : t :: rest ⊆ ts) : rest ⊆ ts :=
  List.Subset.trans (List.subset_cons_self t rest) h

theorem suffixes_all {base : Term} (h : L.Admits ts) (hb : base.All L) :
    (suffixes base ts).1.All L ∧ (suffixes base ts).2 ⊆ ts := by
  fun_induction suffixes base ts with
  | case1 base => exact ⟨hb, List.nil_subset _⟩
  | case2 base t rest hk ih =>
    obtain ⟨hall, hsub⟩ := ih (h.mono (List.subset_cons_self t rest)) hb
    exact ⟨hall, List.subset_cons_of_subset t hsub⟩
  | case3 base t rest hk ih =>
    obtain ⟨hall, hsub⟩ := ih (h.mono (List.subset_cons_self t rest)) hb
    exact ⟨hall, List.subset_cons_of_subset t hsub⟩
  | case4 base t hk n more name hn ih =>
    have hmore : more ⊆ t :: n :: more := List.subset_cons_of_subset t (List.subset_cons_self n more)
    obtain ⟨hall, hsub⟩ := ih (h.mono hmore) hb
    exact ⟨hall, List.Subset.trans hsub hmore⟩
  | case5 base t hk n more hn => exact ⟨⟨hb, h.syntactic _ _⟩, List.nil_subset _⟩
  | case6 base t hk => exact ⟨⟨hb, h.syntactic _ _⟩, List.nil_subset _⟩
  | case7 base t rest => exact ⟨hb, List.Subset.refl _⟩

theorem castPrefix?_subset {ty : Ty} (h : castPrefix? ts = some (ty, line, rest)) : rest ⊆ ts := by
  unfold castPrefix? at h
  split at h
  · rename_i o t c more
    split at h
    · simp only [Option.map_eq_some_iff, Prod.mk.injEq] at h
      obtain ⟨_, _, _, _, rfl⟩ := h
      intro x hx
      simp [hx]
    · cases h
  · cases h

theorem negativeNumber?_all {t : Term} (h : L.Admits ts) (hn : negativeNumber? ts = some (t, rest)) :
    t.All L ∧ rest ⊆ ts := by
  unfold negativeNumber? at hn
  split at hn
  · rename_i m n more
    have hsub : more ⊆ m :: n :: more := List.subset_cons_of_subset m (List.subset_cons_self n more)
    split at hn
    · split at hn
      · rename_i i hi
        cases hn
        exact ⟨h.integer n (by simp) i hi, hsub⟩
      · rename_i x hx
        cases hn
        exact ⟨h.float n (by simp) x hx, hsub⟩
      · cases hn
    · cases hn
  · cases hn

theorem inside_subset {inner after : List Token} (h : Bracket.inside o ts = .ok (inner, after)) :
    inner ⊆ ts ∧ after ⊆ ts := by
  obtain ⟨c, -, rfl⟩ := Bracket.inside_eq_ok h
  exact ⟨List.subset_append_left _ _, fun x hx => by simp [hx]⟩

theorem problem_of_inside {us : List Token} {d : Diagnostic} (h : L.Admits ts)
    (hd : Bracket.inside o us = .error d) : L.problem d := by
  obtain ⟨line, cause, rfl⟩ := Bracket.inside_error hd
  exact h.syntactic line cause

theorem UnaryOp.tier_ofSymbol? {s : Symbol} {op : UnaryOp} (h : UnaryOp.ofSymbol? s = some op) :
    Step.ofSymbol? s = none ∧ Tier.indexOf? s.text .before = some 3 := by
  have hall : ∀ s ∈ Symbol.all, (UnaryOp.ofSymbol? s).isSome = true →
      Step.ofSymbol? s = none ∧ Tier.indexOf? s.text .before = some 3 := by decide +kernel
  exact hall s (Symbol.mem_all s) (by simp [h])

/-- The symbols that the table has before an operand are those with an operator of that form. -/
theorem isBefore_eq (s : Symbol) :
    s.isBefore = ((Step.ofSymbol? s).isSome || (UnaryOp.ofSymbol? s).isSome) := by
  have hall : ∀ s ∈ Symbol.all, s.isBefore = ((Step.ofSymbol? s).isSome || (UnaryOp.ofSymbol? s).isSome) := by
    decide +kernel
  exact hall s (Symbol.mem_all s)

theorem lead?_eq_some {t : Token} {lead : Lead} : lead? t = some lead ↔ ∃ s, t.kind = .operator s ∧
    ((∃ op, UnaryOp.ofSymbol? s = some op ∧ lead = .unary op) ∨
      (∃ step, Step.ofSymbol? s = some step ∧ lead = .step step)) := by
  unfold lead?
  cases hk : t.kind with
  | operator s =>
    have hform := isBefore_eq s
    cases hs : Step.ofSymbol? s with
    | some step =>
      have hunary : UnaryOp.ofSymbol? s = none := by
        rw [Option.eq_none_iff_forall_ne_some]
        intro op hop
        rw [(UnaryOp.tier_ofSymbol? hop).1] at hs
        cases hs
      simp [hform, Lead.ofSymbol, hs, hunary, eq_comm]
    | none => cases hu : UnaryOp.ofSymbol? s <;> simp [hform, Lead.ofSymbol, hs, hu, eq_comm]
  | identifier | keyword | typeName | integer | float | string | openParen | closeParen | openBracket
  | closeBracket | openBrace | closeBrace | semicolon | comma => simp

theorem Lead.all_term {lead : Lead} (h : lead? o = some lead) {t : Term} :
    (lead.term line t).All L ↔ t.All L := by
  obtain ⟨s, -, ⟨op, -, rfl⟩ | ⟨step, -, rfl⟩⟩ := lead?_eq_some.mp h
  · exact Iff.rfl
  · exact Iff.rfl

-- a chain is never grouped while types are compared
attribute [local irreducible] ofChain

mutual

theorem expression_all (last : Nat) (angle : Bool) {ts : List Token} (h : L.Admits ts) :
    (expression last angle ts).Holds (Term.All L) := by
  have hle := (operand last angle ts).rest_le
  have hfirst := operand_all last angle h
  have hlinks := chain_all last angle (h.mono hfirst.2)
  refine Parsed.holds_of_read expression_read ⟨?_, List.Subset.trans hlinks.2 hfirst.2⟩
  exact (ofChain_all (chain_joins _)).mpr ⟨hfirst.1, hlinks.1⟩
termination_by 7 * ts.length + 5
decreasing_by all_goals omega

theorem chain_all (last : Nat) (angle : Bool) {ts : List Token} (h : L.Admits ts) :
    (chain last angle ts).Holds fun links => ∀ l ∈ links, l.operand.All L := by
  match ts with
  | [] => exact Parsed.holds_of_read chain_nil ⟨by simp, List.nil_subset _⟩
  | t :: rest =>
    cases ht : join? angle t with
    | none => exact Parsed.holds_of_read (chain_stop ht) ⟨by simp, List.Subset.refl _⟩
    | some j =>
      have hle := (operand last angle rest).rest_le
      have hrest := List.subset_cons_self t rest
      have hnext := operand_all last angle (h.mono hrest)
      have hmore := chain_all last angle (h.mono (List.Subset.trans hnext.2 hrest))
      refine Parsed.holds_of_read (chain_link ht)
        ⟨?_, List.Subset.trans hmore.2 (List.Subset.trans hnext.2 hrest)⟩
      intro l hl
      obtain rfl | hl := List.mem_cons.mp hl
      · exact hnext.1
      · exact hmore.1 l hl
termination_by 7 * ts.length + 4
decreasing_by all_goals simp only [List.length_cons] at *; omega

theorem operand_all (last : Nat) (angle : Bool) {ts : List Token} (h : L.Admits ts) :
    (operand last angle ts).Holds (Term.All L) := by
  match ts with
  | [] => exact Parsed.holds_of_read operand_nil ⟨h.syntactic _ _, List.nil_subset _⟩
  | t :: rest =>
    cases ht : lead? t with
    | some lead =>
      have hrest := List.subset_cons_self t rest
      have hinner := operand_all last angle (h.mono hrest)
      exact Parsed.holds_of_read (operand_lead ht) ⟨(Lead.all_term ht).mpr hinner.1,
        List.Subset.trans hinner.2 hrest⟩
    | none =>
      have hbase := primary_all last h
      have hall := suffixes_all (h.mono hbase.2) hbase.1
      exact Parsed.holds_of_read (operand_base ht) ⟨hall.1, List.Subset.trans hall.2 hbase.2⟩
termination_by 7 * ts.length + 3
decreasing_by all_goals simp only [List.length_cons] at *; omega

theorem primary_all (last : Nat) {ts : List Token} (h : L.Admits ts) :
    (primary last ts).Holds (Term.All L) := by
  match ts with
  | [] => exact Parsed.holds_of_read primary_nil ⟨h.syntactic _ _, List.nil_subset _⟩
  | t :: rest =>
    cases ht : t.isSymbol .at with
    | false => exact Parsed.holds_of_read (primary_other ht) (casted_all last h)
    | true =>
      match rest with
      | [] =>
        exact Parsed.holds_of_read (primary_unlabelled ht (by simp)) ⟨h.syntactic _ _, List.nil_subset _⟩
      | n :: more =>
        have hmore : more ⊆ t :: n :: more := subset_tail (List.subset_cons_self t (n :: more))
        cases hn : n.identifier? with
        | none =>
          exact Parsed.holds_of_read (primary_unlabelled ht (by simp [hn])) ⟨h.syntactic _ _,
            List.nil_subset _⟩
        | some name => exact Parsed.holds_of_read (primary_label ht hn) ⟨trivial, hmore⟩
termination_by 7 * ts.length + 2
decreasing_by all_goals simp only [List.length_cons] at *; omega

theorem casted_all (last : Nat) {ts : List Token} (h : L.Admits ts) :
    (casted last ts).Holds (Term.All L) := by
  cases hc : castPrefix? ts with
  | none => exact Parsed.holds_of_read (casted_atom hc) (atom_all last h)
  | some p =>
    obtain ⟨target, line, rest⟩ := p
    have hlt := castPrefix?_length hc
    have hsub := castPrefix?_subset hc
    cases hn : negativeNumber? rest with
    | some r =>
      obtain ⟨hall, hafter⟩ := negativeNumber?_all (h.mono hsub) hn
      exact Parsed.holds_of_read (casted_negative hc hn) ⟨hall, List.Subset.trans hafter hsub⟩
    | none =>
      have hinner := casted_all last (h.mono hsub)
      exact Parsed.holds_of_read (casted_cast hc hn) ⟨hinner.1, List.Subset.trans hinner.2 hsub⟩
termination_by 7 * ts.length + 1
decreasing_by all_goals omega

/-- The leaves of an atom come from its tokens. -/
theorem atom_all (last : Nat) {ts : List Token} (h : L.Admits ts) : (atom last ts).Holds (Term.All L) := by
  match ts with
  | [] => exact Parsed.holds_of_read atom_nil ⟨h.syntactic _ _, List.nil_subset _⟩
  | t :: rest =>
    have hcons := List.subset_cons_self t rest
    cases hl : literal? t with
    | some v => exact Parsed.holds_of_read (atom_literal hl) ⟨h.literal t (by simp) v hl, hcons⟩
    | none =>
      match hk : t.kind with
      | .identifier name =>
        match rest with
        | [] => exact Parsed.holds_of_read (atom_name hk (by simp)) ⟨trivial, List.nil_subset _⟩
        | o :: more =>
          by_cases ho : o.kind = .openParen
          · refine Parsed.holds_of_read (atom_call hk ho) ?_
            cases hi : Bracket.inside o more with
            | error d => exact ⟨problem_of_inside h hi, List.nil_subset _⟩
            | ok p =>
              have hlen := Bracket.inside_length hi
              have hsub := inside_subset hi
              have hmore := subset_tail hcons
              have hall := items_all (lastLine last p.1) (h.mono (List.Subset.trans hsub.1 hmore))
              exact ⟨hall, List.Subset.trans hsub.2 hmore⟩
          · exact Parsed.holds_of_read (atom_name hk (by simp [ho])) ⟨trivial, hcons⟩
      | .openParen =>
        refine Parsed.holds_of_read (atom_paren hk) ?_
        match hi : Bracket.inside t rest with
        | .error d => exact ⟨problem_of_inside h hi, List.nil_subset _⟩
        | .ok ([], after) => exact ⟨h.syntactic _ _, List.nil_subset _⟩
        | .ok (i :: is, after) =>
          have hlen := Bracket.inside_length hi
          have hsub := inside_subset hi
          have hall := whole_all (lastLine last (i :: is)) (h.mono (List.Subset.trans hsub.1 hcons))
          exact ⟨hall, List.Subset.trans hsub.2 hcons⟩
      | .openBracket =>
        refine Parsed.holds_of_read (atom_bracket hk) ?_
        cases hi : Bracket.inside t rest with
        | error d => exact ⟨problem_of_inside h hi, List.nil_subset _⟩
        | ok p =>
          have hlen := Bracket.inside_length hi
          have hsub := inside_subset hi
          have hall := items_all (lastLine last p.1) (h.mono (List.Subset.trans hsub.1 hcons))
          exact ⟨hall, List.Subset.trans hsub.2 hcons⟩
      | .operator s =>
        by_cases hs : s = .less
        · have hparts := components_all last t.line (h.mono hcons)
          exact Parsed.holds_of_read (atom_angle (hs ▸ hk)) ⟨hparts.1, List.Subset.trans hparts.2 hcons⟩
        · have hother : startsAtom t = false := by simp [startsAtom, hk, hs]
          exact Parsed.holds_of_read (atom_other hother) ⟨h.syntactic _ _, List.nil_subset _⟩
      | .keyword _ | .typeName _ | .integer _ | .float _ | .string _ | .closeParen | .closeBracket
      | .openBrace | .closeBrace | .semicolon | .comma =>
        have hother : startsAtom t = false := by simp_all [startsAtom, literal?]
        exact Parsed.holds_of_read (atom_other hother) ⟨h.syntactic _ _, List.nil_subset _⟩
termination_by 7 * ts.length + 0
decreasing_by all_goals simp only [List.length_cons] at *; omega

theorem components_all (last opening : Nat) {ts : List Token} (h : L.Admits ts) :
    (components last opening ts).Holds (Term.AllOf L) := by
  have hle := (expression last true ts).rest_le
  obtain ⟨hfirst, hrest⟩ := expression_all last true h
  refine Parsed.holds_of_read components_read ?_
  match hr : (expression last true ts).rest with
  | [] => exact ⟨⟨hfirst, h.syntactic _ _, trivial⟩, List.nil_subset _⟩
  | t :: more =>
    rw [hr] at hle hrest
    have hlt : more.length < ts.length := hle
    have hmore := subset_tail hrest
    by_cases hc : t.is .comma = true
    · have hothers := components_all last opening (h.mono hmore)
      simp only [hc, if_true]
      exact ⟨⟨hfirst, hothers.1⟩, List.Subset.trans hothers.2 hmore⟩
    · by_cases hg : t.isSymbol .greater = true
      · simp only [hc, hg, if_true]
        exact ⟨⟨hfirst, trivial⟩, hmore⟩
      · simp only [hc, hg]
        exact ⟨⟨hfirst, h.syntactic _ _, trivial⟩, List.nil_subset _⟩
termination_by 7 * ts.length + 6
decreasing_by all_goals omega

theorem whole_all (last : Nat) {ts : List Token} (h : L.Admits ts) : (whole last ts).All L := by
  have hfirst := expression_all last false h
  rw [whole]
  split
  · exact hfirst.1
  · exact ⟨hfirst.1, h.syntactic _ _⟩
termination_by 7 * ts.length + 6
decreasing_by all_goals omega

theorem items_all (last : Nat) {ts : List Token} (h : L.Admits ts) : Term.AllOf L (items last ts) := by
  match ts with
  | [] =>
    rw [items_nil]
    trivial
  | t :: rest =>
    have hle := (expression last false (t :: rest)).rest_le
    obtain ⟨hfirst, hrest⟩ := expression_all last false h
    rw [items_cons]
    match hr : (expression last false (t :: rest)).rest with
    | [] => exact ⟨hfirst, trivial⟩
    | s :: more =>
      rw [hr] at hle hrest
      have hlt : more.length < (t :: rest).length := hle
      have hmore := subset_tail hrest
      by_cases hc : s.is .comma = true
      · simp only [hc, if_true]
        match more with
        | [] => exact ⟨hfirst, h.syntactic _ _, trivial⟩
        | m :: ms => exact ⟨hfirst, items_all last (h.mono hmore)⟩
      · simp only [hc]
        exact ⟨hfirst, h.syntactic _ _, trivial⟩
termination_by 7 * ts.length + 6
decreasing_by all_goals simp only [List.length_cons] at *; omega

end

end Grammar

/-- The leaves of the term of a run. -/
theorem Term.ofTokens_all {line : Nat} (h : L.Admits ts) : (Term.ofTokens line ts).All L := by
  cases ts with
  | nil => exact h.syntactic _ _
  | cons t rest => exact Grammar.whole_all _ h

theorem Term.listOfTokens_all {line : Nat} (h : L.Admits ts) : Term.AllOf L (Term.listOfTokens line ts) :=
  Grammar.items_all _ h

end WorldScript
