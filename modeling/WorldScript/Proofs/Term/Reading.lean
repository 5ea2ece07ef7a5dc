import WorldScript.Proofs.Term.Leaves

/-! # Reading finds what is spelled

A term that is read without a broken leaf is spelled by the tokens that were read, and tokens that spell
a term are read as this term.
-/

namespace WorldScript

def LeafSet.whole : LeafSet := ⟨fun _ => True, fun _ => False⟩

namespace Grammar

variable {s : Symbol} {ts rest : List Token} {o : Token}

open Term (Derives IsOperator Phrase)

theorem Step.tier_ofSymbol? {step : Step} (h : Step.ofSymbol? s = some step) :
    Tier.indexOf? s.text .before = some 3 ∧ Tier.indexOf? s.text .after = some 2 := by
  have hall : ∀ s ∈ Symbol.all, (Step.ofSymbol? s).isSome = true →
      Tier.indexOf? s.text .before = some 3 ∧ Tier.indexOf? s.text .after = some 2 := by decide +kernel
  exact hall s (Symbol.mem_all s) (by simp [h])

theorem indexOf?_label : Tier.indexOf? s.text .before = some 1 ↔ s = .at := by
  have hall : ∀ s ∈ Symbol.all, (Tier.indexOf? s.text .before = some 1 ↔ s = .at) := by decide +kernel
  exact hall s (Symbol.mem_all s)

theorem indexOf?_member : Tier.indexOf? s.text .between = some 2 ↔ s = .dot := by
  have hall : ∀ s ∈ Symbol.all, (Tier.indexOf? s.text .between = some 2 ↔ s = .dot) := by decide +kernel
  exact hall s (Symbol.mem_all s)

theorem castPrefix?_eq_some {target : Ty} {line : Nat} :
    castPrefix? ts = some (target, line, rest) ↔ ∃ o n c, ts = o :: n :: c :: rest ∧ o.kind = .openParen ∧
      n.kind = .typeName target ∧ c.kind = .closeParen ∧ line = o.line := by
  constructor
  · intro h
    unfold castPrefix? at h
    split at h
    · rename_i o n c more
      split at h
      · rename_i hparens
        simp only [Token.is, Bool.and_eq_true, decide_eq_true_eq] at hparens
        simp only [Option.map_eq_some_iff, Prod.mk.injEq] at h
        obtain ⟨ty, hty, rfl, rfl, rfl⟩ := h
        refine ⟨o, n, c, rfl, hparens.1, ?_, hparens.2, rfl⟩
        unfold Token.ty? at hty
        split at hty <;> simp_all
      · cases h
    · cases h
  · rintro ⟨o, n, c, rfl, ho, hn, hc, rfl⟩
    simp [castPrefix?, Token.is, Token.ty?, ho, hn, hc]

theorem negativeNumber?_eq_some {t : Term} :
    negativeNumber? ts = some (t, rest) ↔ ∃ m n, ts = m :: n :: rest ∧ m.kind = .operator .minus ∧
      ((∃ i, n.kind = .integer i ∧ t = .literal (.integer (-i)) m.line) ∨
        (∃ x, n.kind = .float x ∧ t = .literal (.float (-x)) m.line)) := by
  constructor
  · intro h
    unfold negativeNumber? at h
    split at h
    · rename_i m n more
      split at h
      · rename_i hm
        simp only [Token.isSymbol, Token.is, decide_eq_true_eq] at hm
        split at h
        · rename_i i hi
          cases h
          exact ⟨m, n, rfl, hm, .inl ⟨i, hi, rfl⟩⟩
        · rename_i x hx
          cases h
          exact ⟨m, n, rfl, hm, .inr ⟨x, hx, rfl⟩⟩
        · cases h
      · cases h
    · cases h
  · rintro ⟨m, n, rfl, hm, ⟨i, hn, rfl⟩ | ⟨x, hn, rfl⟩⟩ <;>
      simp [negativeNumber?, Token.isSymbol, Token.is, hm, hn]

theorem identifier?_eq_some {t : Token} {name : String} :
    t.identifier? = some name ↔ t.kind = .identifier name := by
  unfold Token.identifier?
  split <;> simp_all

/-- What was read stands in a relation to the tokens that were read for it, if it is as it should be. -/
def Parsed.Spells {α : Type} {ts : List Token} (p : Parsed α ts) (Whole : α → Prop)
    (R : List Token → α → Prop) : Prop :=
  Whole p.value → ∃ run, ts = run ++ p.rest ∧ R run p.value

theorem Parsed.spells_of_read {α : Type} {p : Parsed α ts} {Whole : α → Prop} {R : List Token → α → Prop}
    {a : α} (h : p.read = (a, rest)) (ha : Whole a → ∃ run, ts = run ++ rest ∧ R run a) :
    p.Spells Whole R := by
  cases h
  exact ha

theorem lead_derives {angle : Bool} {lead : Lead} {t : Term} (ho : lead? o = some lead)
    (h : Derives angle ts (.level 3 t)) : Derives angle (o :: ts) (.level 3 (lead.term o.line t)) := by
  obtain ⟨s, hk, ⟨op, hs, rfl⟩ | ⟨step, hs, rfl⟩⟩ := lead?_eq_some.mp ho
  · exact .unary ⟨hk, (UnaryOp.tier_ofSymbol? hs).2⟩ hs h
  · exact .stepBefore ⟨hk, (Step.tier_ofSymbol? hs).1⟩ hs h

/-- What stands behind an operand carries its derivation on. -/
theorem suffixes_derives {angle : Bool} {base : Term} {before : List Token} (ts : List Token)
    (hb : Derives angle before (.level 2 base)) (hw : (suffixes base ts).1.All .whole) :
    ∃ run, ts = run ++ (suffixes base ts).2 ∧
      Derives angle (before ++ run) (.level 2 (suffixes base ts).1) := by
  fun_induction suffixes base ts generalizing before with
  | case1 base => exact ⟨[], rfl, by simpa using hb⟩
  | case2 base t rest hk ih =>
    have hstep : Derives angle (before ++ [t]) (.level 2 (.step .increment false base t.line)) :=
      .stepAfter hb ⟨hk, (Step.tier_ofSymbol? rfl).2⟩ rfl
    obtain ⟨run, hrest, hrun⟩ := ih hstep hw
    exact ⟨t :: run, by rw [List.cons_append, ← hrest], by simpa using hrun⟩
  | case3 base t rest hk ih =>
    have hstep : Derives angle (before ++ [t]) (.level 2 (.step .decrement false base t.line)) :=
      .stepAfter hb ⟨hk, (Step.tier_ofSymbol? rfl).2⟩ rfl
    obtain ⟨run, hrest, hrun⟩ := ih hstep hw
    exact ⟨t :: run, by rw [List.cons_append, ← hrest], by simpa using hrun⟩
  | case4 base t hk n more name hn ih =>
    have hmember : Derives angle (before ++ [t, n]) (.level 2 (.member base name t.line)) :=
      .member hb ⟨hk, indexOf?_member.mpr rfl⟩ (identifier?_eq_some.mp hn)
    obtain ⟨run, hrest, hrun⟩ := ih hmember hw
    exact ⟨t :: n :: run, by rw [List.cons_append, List.cons_append, ← hrest], by simpa using hrun⟩
  | case5 base t hk n more hn => exact hw.2.elim
  | case6 base t hk => exact hw.2.elim
  | case7 base t rest => exact ⟨[], rfl, by simpa using hb⟩

theorem base_all {L : LeafSet} {base : Term} (h : (suffixes base ts).1.All L) : base.All L := by
  fun_induction suffixes base ts with
  | case1 => exact h
  | case2 _ _ _ _ ih => exact ih h
  | case3 _ _ _ _ ih => exact ih h
  | case4 _ _ _ _ _ _ _ ih => exact ih h
  | case5 => exact h.1
  | case6 => exact h.1
  | case7 => exact h

def Closes (ts : List Token) (parts : List Term) : Prop :=
  ∃ inner c, ts = inner ++ [c] ∧ c.kind = .operator .greater ∧ Derives true inner (.several parts)

theorem closeParen_of_closes? {c : Token} (ho : o.kind = .openParen) (h : Bracket.closes? c = some o.kind) :
    c.kind = .closeParen := by
  unfold Bracket.closes? at h
  split at h <;> simp_all

theorem closeBracket_of_closes? {c : Token} (ho : o.kind = .openBracket)
    (h : Bracket.closes? c = some o.kind) : c.kind = .closeBracket := by
  unfold Bracket.closes? at h
  split at h <;> simp_all

-- a chain is never grouped while types are compared
attribute [local irreducible] ofChain

-- Each lemma rests on the others as its function does: for a shorter run, or for the same run further in.
mutual

/-- What is read without a problem is derived from the tokens that are read, one function after the other. -/
theorem expression_spells (last : Nat) (angle : Bool) (ts : List Token) :
    (expression last angle ts).Spells (Term.All .whole) fun run t =>
      Derives angle run (.level Tier.loosest t) := by
  have hle := (operand last angle ts).rest_le
  have hfirst := operand_spells last angle ts
  have hlinks := chain_spells last angle (operand last angle ts).rest
  refine Parsed.spells_of_read expression_read fun hw => ?_
  obtain ⟨hwfirst, hwlinks⟩ := (ofChain_all (chain_joins _)).mp hw
  obtain ⟨run, hrun, hoperand⟩ := hfirst hwfirst
  obtain ⟨others, hothers, hchain⟩ := hlinks hwlinks
  refine ⟨run ++ others, by rw [List.append_assoc, ← hothers, ← hrun], ?_⟩
  exact ofChain_derives ⟨run, others, rfl, hoperand, hchain⟩
termination_by 7 * ts.length + 5
decreasing_by all_goals omega

theorem chain_spells (last : Nat) (angle : Bool) (ts : List Token) :
    (chain last angle ts).Spells (fun links => ∀ l ∈ links, l.operand.All .whole)
      (Links (AtLevel angle 3) angle) := by
  match ts with
  | [] => exact Parsed.spells_of_read chain_nil fun _ => ⟨[], rfl, .nil⟩
  | t :: rest =>
    cases ht : join? angle t with
    | none => exact Parsed.spells_of_read (chain_stop ht) fun _ => ⟨[], rfl, .nil⟩
    | some j =>
      have hle := (operand last angle rest).rest_le
      have hnext := operand_spells last angle rest
      have hmore := chain_spells last angle (operand last angle rest).rest
      refine Parsed.spells_of_read (chain_link ht) fun hw => ?_
      obtain ⟨run, hrun, hoperand⟩ := hnext (hw _ List.mem_cons_self)
      obtain ⟨others, hothers, hchain⟩ := hmore fun l hl => hw l (List.mem_cons_of_mem _ hl)
      exact ⟨t :: (run ++ others), by rw [List.cons_append, List.append_assoc, ← hothers, ← hrun],
        .cons ht hoperand hchain⟩
termination_by 7 * ts.length + 4
decreasing_by all_goals simp only [List.length_cons] at *; omega

theorem operand_spells (last : Nat) (angle : Bool) (ts : List Token) :
    (operand last angle ts).Spells (Term.All .whole) (AtLevel angle 3) := by
  match ts with
  | [] => exact Parsed.spells_of_read operand_nil fun hw => hw.elim
  | t :: rest =>
    cases ht : lead? t with
    | some lead =>
      have hinner := operand_spells last angle rest
      refine Parsed.spells_of_read (operand_lead ht) fun hw => ?_
      obtain ⟨run, hrun, hoperand⟩ := hinner ((Lead.all_term ht).mp hw)
      exact ⟨t :: run, by rw [List.cons_append, ← hrun], lead_derives ht hoperand⟩
    | none =>
      have hbase := primary_spells last angle (t :: rest)
      refine Parsed.spells_of_read (operand_base ht) fun hw => ?_
      obtain ⟨run, hrun, hprimary⟩ := hbase (base_all hw)
      have hlevel : Derives angle run (.level 2 (primary last (t :: rest)).value) :=
        .looser (by decide) hprimary
      obtain ⟨more, hmore, hall⟩ := suffixes_derives _ hlevel hw
      exact ⟨run ++ more, by rw [List.append_assoc, ← hmore, ← hrun], .looser (by decide) hall⟩
termination_by 7 * ts.length + 3
decreasing_by all_goals simp only [List.length_cons] at *; omega

theorem primary_spells (last : Nat) (angle : Bool) (ts : List Token) :
    (primary last ts).Spells (Term.All .whole) (AtLevel angle 1) := by
  match ts with
  | [] => exact Parsed.spells_of_read primary_nil fun hw => hw.elim
  | t :: rest =>
    cases ht : t.isSymbol .at with
    | false =>
      have hcasted := casted_spells last angle (t :: rest)
      refine Parsed.spells_of_read (primary_other ht) fun hw => ?_
      obtain ⟨run, hrun, hlevel⟩ := hcasted hw
      exact ⟨run, hrun, .looser (by decide) hlevel⟩
    | true =>
      have hk : t.kind = .operator .at := by simpa [Token.isSymbol, Token.is] using ht
      match rest with
      | [] => exact Parsed.spells_of_read (primary_unlabelled ht (by simp)) fun hw => hw.elim
      | n :: more =>
        cases hn : n.identifier? with
        | none => exact Parsed.spells_of_read (primary_unlabelled ht (by simp [hn])) fun hw => hw.elim
        | some name =>
          refine Parsed.spells_of_read (primary_label ht hn) fun _ => ⟨[t, n], rfl, ?_⟩
          exact .label ⟨hk, indexOf?_label.mpr rfl⟩ (identifier?_eq_some.mp hn)
termination_by 7 * ts.length + 2
decreasing_by all_goals simp only [List.length_cons] at *; omega

theorem casted_spells (last : Nat) (angle : Bool) (ts : List Token) :
    (casted last ts).Spells (Term.All .whole) (AtLevel angle 0) := by
  cases hc : castPrefix? ts with
  | none =>
    have hatom := atom_spells last angle ts
    refine Parsed.spells_of_read (casted_atom hc) fun hw => ?_
    obtain ⟨run, hrun, hatom⟩ := hatom hw
    exact ⟨run, hrun, .uncast hatom⟩
  | some p =>
    obtain ⟨target, line, rest⟩ := p
    have hlt := castPrefix?_length hc
    obtain ⟨o, n, c, hts, ho, hn, hclose, rfl⟩ := castPrefix?_eq_some.mp hc
    cases hneg : negativeNumber? rest with
    | some r =>
      obtain ⟨t, after⟩ := r
      obtain ⟨m, k, rfl, hm, ⟨i, hk, rfl⟩ | ⟨x, hk, rfl⟩⟩ := negativeNumber?_eq_some.mp hneg
      · exact Parsed.spells_of_read (casted_negative hc hneg) fun _ =>
          ⟨[o, n, c, m, k], hts, .cast ho hn hclose (.negativeInteger hm hk)⟩
      · exact Parsed.spells_of_read (casted_negative hc hneg) fun _ =>
          ⟨[o, n, c, m, k], hts, .cast ho hn hclose (.negativeFloat hm hk)⟩
    | none =>
      have hinner := casted_spells last angle rest
      refine Parsed.spells_of_read (casted_cast hc hneg) fun hw => ?_
      obtain ⟨run, hrun, hlevel⟩ := hinner hw
      exact ⟨o :: n :: c :: run, by rw [hts, List.cons_append, List.cons_append, List.cons_append, ← hrun],
        .cast ho hn hclose (.castable hlevel)⟩
termination_by 7 * ts.length + 1
decreasing_by all_goals omega

theorem atom_spells (last : Nat) (angle : Bool) (ts : List Token) :
    (atom last ts).Spells (Term.All .whole) fun run t => Derives angle run (.atom t) := by
  match ts with
  | [] => exact Parsed.spells_of_read atom_nil fun hw => hw.elim
  | t :: rest =>
    cases hl : literal? t with
    | some v => exact Parsed.spells_of_read (atom_literal hl) fun _ => ⟨[t], rfl, .literal hl⟩
    | none =>
      match hk : t.kind with
      | .identifier name =>
        match rest with
        | [] => exact Parsed.spells_of_read (atom_name hk (by simp)) fun _ => ⟨[t], rfl, .name hk⟩
        | o :: more =>
          by_cases ho : o.kind = .openParen
          · cases hi : Bracket.inside o more with
            | error d =>
              have hread : (atom last (t :: o :: more)).read = _ := atom_call hk ho
              rw [hi] at hread
              exact Parsed.spells_of_read hread fun hw => hw.elim
            | ok p =>
              obtain ⟨inner, after⟩ := p
              have hlen := Bracket.inside_length hi
              obtain ⟨c, hc, rfl⟩ := Bracket.inside_eq_ok hi
              have hargs := items_spell (lastLine last inner) inner
              have hread : (atom last (t :: o :: (inner ++ c :: after))).read = _ := atom_call hk ho
              rw [hi] at hread
              refine Parsed.spells_of_read hread fun hw => ?_
              exact ⟨t :: o :: (inner ++ [c]), by simp, .call hk ho (hargs hw) (closeParen_of_closes? ho hc)⟩
          · exact Parsed.spells_of_read (atom_name hk (by simp [ho])) fun _ => ⟨[t], rfl, .name hk⟩
      | .openParen =>
        have hread : (atom last (t :: rest)).read = _ := atom_paren hk
        match hi : Bracket.inside t rest with
        | .error d =>
          rw [hi] at hread
          exact Parsed.spells_of_read hread fun hw => hw.elim
        | .ok ([], after) =>
          rw [hi] at hread
          exact Parsed.spells_of_read hread fun hw => hw.elim
        | .ok (i :: is, after) =>
          rw [hi] at hread
          have hlen := Bracket.inside_length hi
          obtain ⟨c, hc, hrest⟩ := Bracket.inside_eq_ok hi
          have hinner := whole_spells (lastLine last (i :: is)) (i :: is)
          refine Parsed.spells_of_read hread fun hw => ?_
          exact ⟨t :: (i :: is ++ [c]), by simp [hrest],
            .parenthesized hk (hinner hw) (closeParen_of_closes? hk hc)⟩
      | .openBracket =>
        have hread : (atom last (t :: rest)).read = _ := atom_bracket hk
        cases hi : Bracket.inside t rest with
        | error d =>
          rw [hi] at hread
          exact Parsed.spells_of_read hread fun hw => hw.elim
        | ok p =>
          rw [hi] at hread
          obtain ⟨inner, after⟩ := p
          have hlen := Bracket.inside_length hi
          obtain ⟨c, hc, hrest⟩ := Bracket.inside_eq_ok hi
          have hargs := items_spell (lastLine last inner) inner
          refine Parsed.spells_of_read hread fun hw => ?_
          exact ⟨t :: (inner ++ [c]), by simp [hrest], .list hk (hargs hw) (closeBracket_of_closes? hk hc)⟩
      | .operator s =>
        by_cases hs : s = .less
        · have hparts := components_spell last t.line rest
          refine Parsed.spells_of_read (atom_angle (hs ▸ hk)) fun hw => ?_
          obtain ⟨run, hrun, inner, c, rfl, hc, hinner⟩ := hparts hw
          exact ⟨t :: (inner ++ [c]), by rw [List.cons_append, ← hrun], .angle (hs ▸ hk) hinner hc⟩
        · have hother : startsAtom t = false := by simp [startsAtom, hk, hs]
          exact Parsed.spells_of_read (atom_other hother) fun hw => hw.elim
      | .keyword _ | .typeName _ | .integer _ | .float _ | .string _ | .closeParen | .closeBracket
      | .openBrace | .closeBrace | .semicolon | .comma =>
        have hother : startsAtom t = false := by simp_all [startsAtom, literal?]
        exact Parsed.spells_of_read (atom_other hother) fun hw => hw.elim
termination_by 7 * ts.length + 0
decreasing_by all_goals simp only [List.length_cons] at *; omega

theorem components_spell (last opening : Nat) (ts : List Token) :
    (components last opening ts).Spells (Term.AllOf .whole) Closes := by
  have hle := (expression last true ts).rest_le
  have hfirst := expression_spells last true ts
  have hread : (components last opening ts).read = _ := components_read
  match hr : (expression last true ts).rest with
  | [] =>
    simp only [hr] at hread
    exact Parsed.spells_of_read hread fun hw => hw.2.1.elim
  | t :: more =>
    rw [hr] at hle
    have hlt : more.length < ts.length := hle
    simp only [hr] at hread
    by_cases hc : t.is .comma = true
    · have hothers := components_spell last opening more
      simp only [hc, if_true] at hread
      refine Parsed.spells_of_read hread fun hw => ?_
      obtain ⟨run, hrun, hterm⟩ := hfirst hw.1
      obtain ⟨others, hmore, inner, c, rfl, hclose, hinner⟩ := hothers hw.2
      rw [hr, hmore] at hrun
      have hcomma : t.kind = .comma := by simpa [Token.is] using hc
      exact ⟨run ++ t :: (inner ++ [c]), by simp [hrun], run ++ t :: inner, c, by simp, hclose,
        .more hterm hcomma hinner⟩
    · by_cases hg : t.isSymbol .greater = true
      · simp only [hc, hg, if_true] at hread
        refine Parsed.spells_of_read hread fun hw => ?_
        obtain ⟨run, hrun, hterm⟩ := hfirst hw.1
        rw [hr] at hrun
        have hclose : t.kind = .operator .greater := by simpa [Token.isSymbol, Token.is] using hg
        exact ⟨run ++ [t], by simp [hrun], run, t, rfl, hclose, .one hterm⟩
      · simp only [hc, hg] at hread
        exact Parsed.spells_of_read hread fun hw => hw.2.1.elim
termination_by 7 * ts.length + 6
decreasing_by all_goals omega

/-- A run that is read as a whole term derives it. -/
theorem whole_spells (last : Nat) (ts : List Token) (hw : (whole last ts).All .whole) :
    Derives false ts (.level Tier.loosest (whole last ts)) := by
  have hfirst := expression_spells last false ts
  rw [whole] at hw ⊢
  match hr : (expression last false ts).rest with
  | [] =>
    simp only [hr] at hw ⊢
    obtain ⟨run, hrun, hterm⟩ := hfirst hw
    rw [hr, List.append_nil] at hrun
    exact hrun ▸ hterm
  | t :: more =>
    simp only [hr] at hw
    exact hw.2.elim
termination_by 7 * ts.length + 6
decreasing_by all_goals omega

theorem items_spell (last : Nat) (ts : List Token) (hw : Term.AllOf .whole (items last ts)) :
    Derives false ts (.items (items last ts)) := by
  match ts with
  | [] =>
    rw [items_nil]
    exact .noItems
  | t :: rest => exact .someItems (several_spell last t rest hw)
termination_by 7 * ts.length + 7
decreasing_by all_goals omega

theorem several_spell (last : Nat) (t : Token) (rest : List Token)
    (hw : Term.AllOf .whole (items last (t :: rest))) :
    Derives false (t :: rest) (.several (items last (t :: rest))) := by
  have hle := (expression last false (t :: rest)).rest_le
  have hfirst := expression_spells last false (t :: rest)
  rw [items_cons] at hw ⊢
  match hr : (expression last false (t :: rest)).rest with
  | [] =>
    simp only [hr] at hw ⊢
    obtain ⟨run, hrun, hterm⟩ := hfirst hw.1
    rw [hr, List.append_nil] at hrun
    exact .one (hrun ▸ hterm)
  | s :: more =>
    rw [hr] at hle
    have hlt : more.length < (t :: rest).length := hle
    simp only [hr] at hw ⊢
    by_cases hc : s.is .comma = true
    · simp only [hc, if_true] at hw ⊢
      match more with
      | [] => exact hw.2.1.elim
      | m :: ms =>
        obtain ⟨run, hrun, hterm⟩ := hfirst hw.1
        have hothers := several_spell last m ms hw.2
        rw [hr] at hrun
        have hmore := Derives.more hterm (by simpa [Token.is] using hc) hothers
        rwa [← hrun] at hmore
    · simp only [hc] at hw
      exact hw.2.1.elim
termination_by 7 * (t :: rest).length + 6
decreasing_by all_goals simp only [List.length_cons] at *; omega

end

end Grammar

end WorldScript
