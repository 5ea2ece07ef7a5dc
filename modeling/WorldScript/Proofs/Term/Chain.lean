import WorldScript.Proofs.Term.Grammar

/-! # Chains of operands

Grouping a flat chain of operands tier by tier builds the term that the grammar gives to its tokens, and
each term of the grammar comes from the flat chain of its operands.
-/

namespace WorldScript.Grammar

variable {j : Join} {s : Symbol} {n : Nat} {tier : Tier} {l : Link}

open Term (Derives IsOperator)

/-- The symbols that the table has between two operands are those with an operator of that form. -/
theorem Join.isSome_ofSymbol? (s : Symbol) : (Join.ofSymbol? s).isSome = s.isBetween := by
  have hall : ∀ s ∈ Symbol.all, (Join.ofSymbol? s).isSome = s.isBetween := by decide +kernel
  exact hall s (Symbol.mem_all s)

theorem join?_eq_some {angle : Bool} {t : Token} :
    join? angle t = some j ↔ ∃ s, t.kind = .operator s ∧ Join.ofSymbol? s = some j ∧
      (angle = true → s ≠ .greater) := by
  unfold join?
  cases hk : t.kind with
  | operator s =>
    have hform := Join.isSome_ofSymbol? s
    cases hs : Join.ofSymbol? s with
    | none =>
      rw [hs] at hform
      simp [← hform, hs]
    | some k =>
      rw [hs] at hform
      cases angle <;> simp [← hform, Join.ofSymbol, hs, and_comm]
  | identifier | keyword | typeName | integer | float | string | openParen | closeParen | openBracket
  | closeBracket | openBrace | closeBrace | semicolon | comma => simp

theorem Join.text_ofSymbol? (h : Join.ofSymbol? s = some j) : j.text = s.text := by
  have hall : ∀ s ∈ Symbol.all, ∀ j ∈ Join.ofSymbol? s, j.text = s.text := by decide +kernel
  exact hall s (Symbol.mem_all s) j h

/-- An operator between two operands has a tier after those of operators with a single operand. -/
theorem Join.tier_ofSymbol? (h : Join.ofSymbol? s = some j) :
    ∃ n < Tier.table.length, Tier.firstBinary ≤ n ∧ Tier.indexOf? s.text .between = some n := by
  have hall : ∀ s ∈ Symbol.all, (Join.ofSymbol? s).isSome = true →
      ∃ n < Tier.table.length, Tier.firstBinary ≤ n ∧ Tier.indexOf? s.text .between = some n := by
    decide +kernel
  exact hall s (Symbol.mem_all s) (by simp [h])

/-- No symbol is in two tiers at one position. -/
theorem contains_iff_indexOf? (ht : Tier.table[n]? = some tier) :
    tier.contains s.text .between = true ↔ Tier.indexOf? s.text .between = some n := by
  have hall : ∀ s ∈ Symbol.all, ∀ n, (h : n < Tier.table.length) →
      (Tier.table[n].contains s.text .between = true ↔ Tier.indexOf? s.text .between = some n) := by
    decide +kernel
  obtain ⟨hn, rfl⟩ := List.getElem?_eq_some_iff.mp ht
  exact hall s (Symbol.mem_all s) n hn

theorem Join.contains_iff (hj : Join.ofSymbol? s = some j) (ht : Tier.table[n]? = some tier) :
    tier.contains j.text .between = true ↔ Tier.indexOf? s.text .between = some n := by
  rw [Join.text_ofSymbol? hj]
  exact contains_iff_indexOf? ht

/-- Tokens spell links of a chain; `Operand` says what spells their operands. -/
inductive Links (Operand : List Token → Term → Prop) (angle : Bool) : List Token → List Link → Prop
  | nil : Links Operand angle [] []
  | cons {o : Token} {j : Join} {ts us : List Token} {t : Term} {links : List Link}
      (hj : join? angle o = some j) (ht : Operand ts t) (hus : Links Operand angle us links) :
      Links Operand angle (o :: (ts ++ us)) (⟨j, o.line, t⟩ :: links)

def Chained (Operand : List Token → Term → Prop) (angle : Bool) (ts : List Token) (c : Term × List Link) :
    Prop :=
  ∃ run others, ts = run ++ others ∧ Operand run c.1 ∧ Links Operand angle others c.2

namespace Links

variable {Operand : List Token → Term → Prop} {angle : Bool}

theorem append {ts us : List Token} {links more : List Link} (h : Links Operand angle ts links)
    (hus : Links Operand angle us more) : Links Operand angle (ts ++ us) (links ++ more) := by
  induction h with
  | nil => exact hus
  | @cons o j run others t rest hj ht _ ih => simpa using Links.cons hj ht ih

theorem join_mem {ts : List Token} {links : List Link} (h : Links Operand angle ts links) {j : Join}
    (hj : j ∈ links.map Link.join) : ∃ s, Join.ofSymbol? s = some j := by
  induction h with
  | nil => simp at hj
  | cons ho _ _ ih =>
    obtain rfl | hmem := List.mem_cons.mp hj
    · obtain ⟨s, -, hs, -⟩ := join?_eq_some.mp ho
      exact ⟨s, hs⟩
    · exact ih hmem

end Links

def AtLevel (angle : Bool) (n : Nat) (ts : List Token) (t : Term) : Prop := Derives angle ts (.level n t)

section Grouping

variable {angle : Bool} {n : Nat} {tier : Tier} {ts us : List Token} {links : List Link} {first : Term}

theorem isOperator_of_join? {o : Token} {j : Join} (hj : join? angle o = some j)
    (ht : Tier.table[n]? = some tier) (hof : tier.contains j.text .between = true) :
    ∃ s, IsOperator o s .between n ∧ Join.ofSymbol? s = some j ∧ (angle = true → s ≠ .greater) := by
  obtain ⟨s, hk, hs, ha⟩ := join?_eq_some.mp hj
  exact ⟨s, ⟨hk, (Join.contains_iff hs ht).mp hof⟩, hs, ha⟩

theorem lt_length_of_getElem? (ht : Tier.table[n]? = some tier) : n < Tier.table.length :=
  (List.getElem?_eq_some_iff.mp ht).1

theorem groupLeft_chained (ht : Tier.table[n + 1]? = some tier) (hg : tier.groupsRight = false)
    (hf : AtLevel angle (n + 1) ts first) (hl : Links (AtLevel angle n) angle us links) :
    Chained (AtLevel angle (n + 1)) angle (ts ++ us) (groupLeft tier first links) := by
  induction hl generalizing ts first with
  | nil => exact ⟨ts, [], rfl, hf, .nil⟩
  | @cons o j run others t rest hj hrun _ ih =>
    by_cases hof : tier.contains j.text .between = true
    · obtain ⟨s, ho, hs, ha⟩ := isOperator_of_join? hj ht hof
      have hnext : AtLevel angle (n + 1) (ts ++ o :: run) (j.term o.line first t) :=
        Derives.leftmost ht hg hf ho hs ha hrun
      have := ih hnext
      simpa [groupLeft, Link.isOf, hof] using this
    · obtain ⟨run', others', hrest, hsecond, hothers⟩ := ih (Derives.looser (lt_length_of_getElem? ht) hrun)
      refine ⟨ts, o :: (run' ++ others'), by rw [← hrest], ?_, ?_⟩
      · simpa [groupLeft, Link.isOf, hof] using hf
      · simpa [groupLeft, Link.isOf, hof] using Links.cons hj hsecond hothers

theorem groupRight_chained (ht : Tier.table[n + 1]? = some tier) (hg : tier.groupsRight = true)
    (hf : AtLevel angle n ts first) (hl : Links (AtLevel angle n) angle us links) :
    Chained (AtLevel angle (n + 1)) angle (ts ++ us) (groupRight tier first links) := by
  have hlt := lt_length_of_getElem? ht
  induction hl generalizing ts first with
  | nil => exact ⟨ts, [], rfl, Derives.looser hlt hf, .nil⟩
  | @cons o j run others t rest hj hrun _ ih =>
    obtain ⟨run', others', hrest, hsecond, hothers⟩ := ih hrun
    by_cases hof : tier.contains j.text .between = true
    · obtain ⟨s, ho, hs, ha⟩ := isOperator_of_join? hj ht hof
      have hnext : AtLevel angle (n + 1) (ts ++ o :: run') (j.term o.line first (groupRight tier t rest).1) :=
        Derives.rightmost ht hg hf ho hs ha hsecond
      refine ⟨ts ++ o :: run', others', by simp [hrest], ?_, ?_⟩
      · simpa [groupRight, Link.isOf, hof] using hnext
      · simpa [groupRight, Link.isOf, hof] using hothers
    · have hnext : AtLevel angle (n + 1) ts first := Derives.looser hlt hf
      refine ⟨ts, o :: (run' ++ others'), by rw [← hrest], ?_, ?_⟩
      · simpa [groupRight, Link.isOf, hof] using hnext
      · simpa [groupRight, Link.isOf, hof] using Links.cons hj hsecond hothers

theorem groupTier_chained (ht : Tier.table[n + 1]? = some tier) {c : Term × List Link}
    (h : Chained (AtLevel angle n) angle ts c) :
    Chained (AtLevel angle (n + 1)) angle ts (groupTier tier c.1 c.2) := by
  obtain ⟨run, others, rfl, hf, hl⟩ := h
  unfold groupTier
  split
  case isTrue hg => exact groupRight_chained ht hg hf hl
  case isFalse hg =>
    exact groupLeft_chained ht (by simpa using hg) (Derives.looser (lt_length_of_getElem? ht) hf) hl

theorem groupTiers_chained {tiers : List Tier} (htiers : Tier.table.drop (n + 1) = tiers)
    (hn : n < Tier.table.length) {c : Term × List Link} (h : Chained (AtLevel angle n) angle ts c) :
    Chained (AtLevel angle Tier.loosest) angle ts (groupTiers c.1 c.2 tiers) := by
  induction tiers generalizing n c with
  | nil =>
    have hlast : n = Tier.loosest := by
      have := List.drop_eq_nil_iff.mp htiers
      unfold Tier.loosest
      omega
    exact hlast ▸ h
  | cons tier looser ih =>
    have ht : Tier.table[n + 1]? = some tier := by
      rw [← List.head?_drop, htiers, List.head?_cons]
    have hlooser : Tier.table.drop (n + 1 + 1) = looser := by
      rw [← List.tail_drop, htiers, List.tail_cons]
    exact ih hlooser (lt_length_of_getElem? ht) (groupTier_chained ht h)

/-- What is left of a chain after a tier is grouped. -/
theorem groupTier_joins (tier : Tier) (first : Term) (links : List Link) :
    (groupTier tier first links).2.map Link.join =
      (links.map Link.join).filter fun j => !tier.contains j.text .between := by
  unfold groupTier
  split
  · induction links generalizing first with
    | nil => rfl
    | cons l rest ih => cases h : l.isOf tier <;> simp_all [groupRight, Link.isOf]
  · induction links generalizing first with
    | nil => rfl
    | cons l rest ih => cases h : l.isOf tier <;> simp_all [groupLeft, Link.isOf]

theorem groupTiers_joins (first : Term) (links : List Link) (tiers : List Tier) :
    (groupTiers first links tiers).2.map Link.join =
      (links.map Link.join).filter fun j => tiers.all fun tier => !tier.contains j.text .between := by
  induction tiers generalizing first links with
  | nil => exact (List.filter_eq_self.mpr fun _ _ => rfl).symm
  | cons tier looser ih =>
    simp only [groupTiers, ih, groupTier_joins, List.filter_filter, List.all_cons]
    congr 1
    funext j
    rw [Bool.and_comm]

/-- Every operator of a chain is grouped in some tier. -/
theorem groupTiers_complete (hl : ∀ j ∈ links.map Link.join, ∃ s, Join.ofSymbol? s = some j) :
    (groupTiers first links (Tier.table.drop Tier.firstBinary)).2 = [] := by
  have hjoins := groupTiers_joins first links (Tier.table.drop Tier.firstBinary)
  have hnone : (groupTiers first links (Tier.table.drop Tier.firstBinary)).2.map Link.join = [] := by
    rw [hjoins, List.filter_eq_nil_iff]
    intro j hj hall
    obtain ⟨s, hs⟩ := hl j hj
    obtain ⟨n, hn, hfirst, hindex⟩ := Join.tier_ofSymbol? hs
    have hmem : Tier.table[n] ∈ Tier.table.drop Tier.firstBinary := by
      refine List.mem_of_getElem? (i := n - Tier.firstBinary) ?_
      rw [List.getElem?_drop, Nat.add_sub_cancel' hfirst, List.getElem?_eq_getElem hn]
    have hin := (Join.contains_iff hs (List.getElem?_eq_getElem hn)).mpr hindex
    have := List.all_eq_true.mp hall _ hmem
    simp [hin] at this
  exact List.map_eq_nil_iff.mp hnone

/-- The term of a chain is spelled by the tokens of the chain. -/
theorem ofChain_derives (h : Chained (AtLevel angle 3) angle ts (first, links)) :
    Derives angle ts (.level Tier.loosest (ofChain first links)) := by
  obtain ⟨run, others, rfl, hf, hl⟩ := h
  have hall := groupTiers_chained (n := 3) rfl (by decide) ⟨run, others, rfl, hf, hl⟩
  obtain ⟨whole, none, happend, hwhole, hnone⟩ := hall
  have hend : (groupTiers first links (Tier.table.drop (3 + 1))).2 = [] :=
    groupTiers_complete fun _ => hl.join_mem
  rw [hend] at hnone
  cases hnone
  rw [happend, List.append_nil]
  exact hwhole

end Grouping

theorem groupLeft_append (h : l.isOf tier = false) (first : Term) (links more : List Link) :
    groupLeft tier first (links ++ l :: more) =
      ((groupLeft tier first links).1, (groupLeft tier first links).2 ++
        ⟨l.join, l.line, (groupLeft tier l.operand more).1⟩ :: (groupLeft tier l.operand more).2) := by
  induction links generalizing first with
  | nil => simp [groupLeft, h]
  | cons k rest ih => cases hk : k.isOf tier <;> simp [groupLeft, hk, ih]

theorem groupRight_append (h : l.isOf tier = false) (first : Term) (links more : List Link) :
    groupRight tier first (links ++ l :: more) =
      ((groupRight tier first links).1, (groupRight tier first links).2 ++
        ⟨l.join, l.line, (groupRight tier l.operand more).1⟩ :: (groupRight tier l.operand more).2) := by
  induction links generalizing first with
  | nil => simp [groupRight, h]
  | cons k rest ih => cases hk : k.isOf tier <;> simp [groupRight, hk, ih]

/-- An operator of another tier cuts a chain in two chains that are grouped on their own. -/
theorem groupTiers_append {tiers : List Tier} (h : ∀ tier ∈ tiers, l.isOf tier = false) (first : Term)
    (links more : List Link) :
    groupTiers first (links ++ l :: more) tiers =
      ((groupTiers first links tiers).1, (groupTiers first links tiers).2 ++
        ⟨l.join, l.line, (groupTiers l.operand more tiers).1⟩ :: (groupTiers l.operand more tiers).2) := by
  induction tiers generalizing first links l more with
  | nil => rfl
  | cons tier looser ih =>
    have htier : l.isOf tier = false := h tier (by simp)
    have hgroup : groupTier tier first (links ++ l :: more) =
        ((groupTier tier first links).1, (groupTier tier first links).2 ++
          ⟨l.join, l.line, (groupTier tier l.operand more).1⟩ :: (groupTier tier l.operand more).2) := by
      unfold groupTier
      split
      · exact groupRight_append htier first links more
      · exact groupLeft_append htier first links more
    simp only [groupTiers, hgroup]
    exact ih (l := ⟨l.join, l.line, (groupTier tier l.operand more).1⟩)
      (fun t ht => h t (List.mem_cons_of_mem _ ht)) _ _ _

theorem groupLeft_snoc (h : l.isOf tier = true) {first t : Term} {links : List Link}
    (hlinks : groupLeft tier first links = (t, [])) :
    groupLeft tier first (links ++ [l]) = (l.join.term l.line t l.operand, []) := by
  induction links generalizing first with
  | nil =>
    cases hlinks
    simp [groupLeft, h]
  | cons k rest ih =>
    cases hk : k.isOf tier with
    | true =>
      simp only [groupLeft, hk, if_true] at hlinks
      simp [groupLeft, hk, ih hlinks]
    | false => simp [groupLeft, hk] at hlinks

theorem groupTiers_concat (first : Term) (links : List Link) (tiers : List Tier) (tier : Tier) :
    groupTiers first links (tiers ++ [tier]) =
      groupTier tier (groupTiers first links tiers).1 (groupTiers first links tiers).2 := by
  induction tiers generalizing first links with
  | nil => rfl
  | cons next looser ih => exact ih _ _

/-- The tiers of operators between two operands up to the one with index `n`. -/
def tiersTo (n : Nat) : List Tier := (Tier.table.drop Tier.firstBinary).take (n - 3)

theorem tiersTo_succ (hn : 3 ≤ n) (ht : Tier.table[n + 1]? = some tier) :
    tiersTo (n + 1) = tiersTo n ++ [tier] := by
  have hnth : (Tier.table.drop Tier.firstBinary)[n - 3]? = some tier := by
    rw [List.getElem?_drop, show Tier.firstBinary + (n - 3) = n + 1 by unfold Tier.firstBinary; omega, ht]
  unfold tiersTo
  rw [show n + 1 - 3 = n - 3 + 1 by omega, List.take_add_one, hnth, Option.toList_some]

/-- Tokens spell a flat chain that is a term once the tiers up to the one with index `n` are grouped. -/
def Flat (Operand : List Token → Term → Prop) (angle : Bool) (n : Nat) (ts : List Token) (t : Term) : Prop :=
  ∃ c : Term × List Link, Chained Operand angle ts c ∧ groupTiers c.1 c.2 (tiersTo n) = (t, [])

namespace Flat

variable {Operand : List Token → Term → Prop} {angle : Bool} {n : Nat} {tier : Tier} {ts us : List Token}
  {t l r : Term} {s : Symbol} {j : Join} {o : Token}

theorem operand (h : Operand ts t) : Flat Operand angle 3 ts t :=
  ⟨(t, []), ⟨ts, [], by simp, h, .nil⟩, rfl⟩

theorem looser (hn : 3 ≤ n) (hlt : n + 1 < Tier.table.length) (h : Flat Operand angle n ts t) :
    Flat Operand angle (n + 1) ts t := by
  obtain ⟨c, hc, hgroup⟩ := h
  refine ⟨c, hc, ?_⟩
  rw [tiersTo_succ hn (List.getElem?_eq_getElem hlt), groupTiers_concat, hgroup]
  unfold groupTier
  split <;> rfl

/-- The operator between two chains belongs to none of the tiers before its own. -/
theorem isOf_eq_false (hj : Join.ofSymbol? s = some j) (hs : Tier.indexOf? s.text .between = some (n + 1))
    {line : Nat} {x : Term} : ∀ tier ∈ tiersTo n, Link.isOf ⟨j, line, x⟩ tier = false := by
  intro tier hmem
  obtain ⟨i, hi⟩ := List.mem_iff_getElem?.mp hmem
  unfold tiersTo at hi
  rw [List.getElem?_take] at hi
  split at hi
  · rename_i hlt
    rw [List.getElem?_drop] at hi
    rw [Bool.eq_false_iff]
    intro hof
    have hindex := (Join.contains_iff hj hi).mp hof
    rw [hs] at hindex
    unfold Tier.firstBinary at hindex
    grind
  · cases hi

/-- Two flat chains with an operator between them. -/
theorem chained_join {c d : Term × List Link} (ho : o.kind = .operator s) (hj : Join.ofSymbol? s = some j)
    (ha : angle = true → s ≠ .greater) (hc : Chained Operand angle ts c) (hd : Chained Operand angle us d) :
    Chained Operand angle (ts ++ o :: us) (c.1, c.2 ++ ⟨j, o.line, d.1⟩ :: d.2) := by
  obtain ⟨run, others, rfl, hrun, hothers⟩ := hc
  obtain ⟨run', others', rfl, hrun', hothers'⟩ := hd
  have hjoin : join? angle o = some j := join?_eq_some.mpr ⟨s, ho, hj, ha⟩
  exact ⟨run, others ++ o :: (run' ++ others'), by simp, hrun, hothers.append (.cons hjoin hrun' hothers')⟩

theorem leftmost (hn : 3 ≤ n) (ht : Tier.table[n + 1]? = some tier) (hg : tier.groupsRight = false)
    (hl : Flat Operand angle (n + 1) ts l) (ho : IsOperator o s .between (n + 1))
    (hj : Join.ofSymbol? s = some j) (ha : angle = true → s ≠ .greater) (hr : Flat Operand angle n us r) :
    Flat Operand angle (n + 1) (ts ++ o :: us) (j.term o.line l r) := by
  obtain ⟨c, hc, hleft⟩ := hl
  obtain ⟨d, hd, hright⟩ := hr
  refine ⟨_, chained_join ho.kind hj ha hc hd, ?_⟩
  -- the tighter tiers group both sides on their own, and then the operator is the last of its tier
  rw [tiersTo_succ hn ht, groupTiers_concat] at hleft
  rw [tiersTo_succ hn ht, groupTiers_concat, groupTiers_append (isOf_eq_false hj ho.tier), hright]
  simp only [groupTier, hg, Bool.false_eq_true, if_false] at hleft ⊢
  have hof : Link.isOf ⟨j, o.line, r⟩ tier = true := (Join.contains_iff hj ht).mpr ho.tier
  exact groupLeft_snoc hof hleft

theorem rightmost (hn : 3 ≤ n) (ht : Tier.table[n + 1]? = some tier) (hg : tier.groupsRight = true)
    (hl : Flat Operand angle n ts l) (ho : IsOperator o s .between (n + 1)) (hj : Join.ofSymbol? s = some j)
    (ha : angle = true → s ≠ .greater) (hr : Flat Operand angle (n + 1) us r) :
    Flat Operand angle (n + 1) (ts ++ o :: us) (j.term o.line l r) := by
  obtain ⟨c, hc, hleft⟩ := hl
  obtain ⟨d, hd, hright⟩ := hr
  refine ⟨_, chained_join ho.kind hj ha hc hd, ?_⟩
  -- here the operator is the first of its tier
  rw [tiersTo_succ hn ht, groupTiers_concat] at hright
  rw [tiersTo_succ hn ht, groupTiers_concat, groupTiers_append (isOf_eq_false hj ho.tier), hleft]
  simp only [groupTier, hg, if_true] at hright ⊢
  have hof : ∀ x, Link.isOf ⟨j, o.line, x⟩ tier = true := fun _ => (Join.contains_iff hj ht).mpr ho.tier
  simp [groupRight, hof, hright]

theorem ofChain_eq (h : Flat Operand angle Tier.loosest ts t) :
    ∃ c : Term × List Link, Chained Operand angle ts c ∧ ofChain c.1 c.2 = t := by
  obtain ⟨c, hc, hgroup⟩ := h
  exact ⟨c, hc, congrArg Prod.fst hgroup⟩

end Flat

end WorldScript.Grammar
