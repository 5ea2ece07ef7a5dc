import WorldScript.Proofs.Term.Reading

/-! # What is spelled is read

Tokens that spell a term are read as this term, whatever follows them, as long as it cannot go on with
the term.  So tokens spell at most one term.
-/

namespace WorldScript

variable {ts : List Token} {t : Term}

open Grammar

namespace Term

variable {n : Nat} {a : Term} {ts : List Token} {t : Token} {angle : Bool} {p : Phrase} {s : Symbol}
  {position : Position}

/-- What the first token of a phrase is not: a type, an operator before an operand, or a label's sign. -/
def Phrase.Starts (ts : List Token) : Phrase → Prop
  | .atom _ => ∃ t more, ts = t :: more ∧ t.ty? = none ∧ lead? t = none ∧ t.isSymbol .at = false
  | .level n _ => ∃ t more, ts = t :: more ∧ t.ty? = none ∧ (n ≤ 2 → lead? t = none) ∧
      (n = 0 → t.isSymbol .at = false)
  | .several _ => ts ≠ []
  | .castable _ | .items _ => True

theorem Phrase.Starts.append {m : Nat} {b : Term} (h : (Phrase.level m a).Starts ts) (hmn : m ≤ n)
    (us : List Token) : (Phrase.level n b).Starts (ts ++ us) := by
  obtain ⟨t, more, rfl, hty, hlead, hat⟩ := h
  exact ⟨t, more ++ us, rfl, hty, fun hn => hlead (by omega), fun hn => hat (by omega)⟩

theorem Phrase.Starts.ne_nil (h : (Phrase.level n a).Starts ts) : ts ≠ [] := by
  obtain ⟨t, more, rfl, -⟩ := h
  exact List.cons_ne_nil _ _

theorem IsOperator.ty?_eq_none (h : IsOperator t s position n) : t.ty? = none := by
  simp [Token.ty?, h.kind]

/-- A token that is an atom by itself, or opens one. -/
theorem Phrase.starts_atom {more : List Token} (ht : startsAtom t = true) :
    (Phrase.atom a).Starts (t :: more) := by
  refine ⟨t, more, rfl, ?_⟩
  rw [startsAtom] at ht
  cases hk : t.kind with
  | identifier | integer | float | string | openParen | openBracket =>
    simp [Token.ty?, lead?, Token.isSymbol, Token.is, hk]
  | operator s =>
    rw [hk] at ht
    obtain rfl : s = .less := of_decide_eq_true ht
    simp [Token.ty?, lead?, isBefore_eq, Token.isSymbol, Token.is, Step.ofSymbol?, UnaryOp.ofSymbol?, hk]
  | keyword | typeName | closeParen | closeBracket | openBrace | closeBrace | semicolon | comma =>
    rw [hk] at ht
    cases ht

theorem startsAtom_of_literal? {v : Value} (h : literal? t = some v) : startsAtom t = true := by
  unfold literal? at h
  unfold startsAtom
  split at h <;> simp_all

theorem Derives.starts (h : Derives angle ts p) : p.Starts ts := by
  induction h with
  | literal ht => exact Phrase.starts_atom (startsAtom_of_literal? ht)
  | name ht | call ht => exact Phrase.starts_atom (by simp [startsAtom, ht])
  | parenthesized ho | list ho | angle ho => exact Phrase.starts_atom (by simp [startsAtom, ho])
  | uncast _ ih =>
    obtain ⟨t, more, rfl, hty, hlead, hat⟩ := ih
    exact ⟨t, more, rfl, hty, fun _ => hlead, fun _ => hat⟩
  | cast ho =>
    exact ⟨_, _, rfl, by simp [Token.ty?, ho], by simp [lead?, ho], by simp [Token.isSymbol, Token.is, ho]⟩
  | castable | negativeInteger | negativeFloat | noItems | someItems => trivial
  | label ho =>
    obtain rfl := indexOf?_label.mp ho.tier
    exact ⟨_, _, rfl, ho.ty?_eq_none,
      by simp [lead?, isBefore_eq, ho.kind, Step.ofSymbol?, UnaryOp.ofSymbol?], by simp⟩
  | stepAfter _ _ _ ih | member _ _ _ ih | leftmost _ _ _ _ _ _ _ ih => exact ih.append (Nat.le_refl _) _
  | unary ho | stepBefore ho => exact ⟨_, _, rfl, ho.ty?_eq_none, by simp, by simp⟩
  | @looser _ n ts _ _ _ ih => simpa using ih.append (Nat.le_succ n) []
  | @rightmost _ n _ _ _ _ _ _ _ _ _ _ _ _ _ _ _ ih => exact ih.append (Nat.le_succ n) _
  | one _ ih => exact ih.ne_nil
  | more _ _ _ ih => exact List.append_ne_nil_of_left_ne_nil ih.ne_nil _

theorem IsOperator.balanced (h : IsOperator t s position n) : Bracket.Balanced [t] :=
  .singleton (by simp [Bracket.isOpening, h.kind]) (by simp [Bracket.closes?, h.kind])

theorem balanced_of_kind (h : Bracket.isOpening t = false ∧ Bracket.closes? t = none)
    (hts : Bracket.Balanced ts) : Bracket.Balanced (t :: ts) :=
  .cons h.1 h.2 hts

theorem Derives.balanced (h : Derives angle ts p) : Bracket.Balanced ts := by
  induction h with
  | literal ht =>
    refine balanced_of_kind ?_ .nil
    unfold literal? at ht
    split at ht <;> simp_all [Bracket.isOpening, Bracket.closes?]
  | name ht => exact balanced_of_kind (by simp [Bracket.isOpening, Bracket.closes?, ht]) .nil
  | call ht ho _ hc ih =>
    refine balanced_of_kind (by simp [Bracket.isOpening, Bracket.closes?, ht]) ?_
    exact .enclosed (by simp [Bracket.closes?, hc, ho]) ih
  | parenthesized ho _ hc ih | list ho _ hc ih =>
    exact .enclosed (by simp [Bracket.closes?, hc, ho]) ih
  | angle ho _ hc ih =>
    refine balanced_of_kind (by simp [Bracket.isOpening, Bracket.closes?, ho]) (ih.append ?_)
    exact balanced_of_kind (by simp [Bracket.isOpening, Bracket.closes?, hc]) .nil
  | uncast _ ih | castable _ ih | looser _ _ ih | one _ ih | someItems _ ih => exact ih
  | @cast _ o n c ts _ _ ho hn hc _ ih =>
    have htype : Bracket.Balanced [n] :=
      balanced_of_kind (by simp [Bracket.isOpening, Bracket.closes?, hn]) .nil
    have hparens : Bracket.Balanced (o :: ([n] ++ [c])) :=
      .enclosed (by simp [Bracket.closes?, hc, ho]) htype
    exact hparens.append ih
  | negativeInteger hm hn | negativeFloat hm hn =>
    exact balanced_of_kind (by simp [Bracket.isOpening, Bracket.closes?, hm])
      (balanced_of_kind (by simp [Bracket.isOpening, Bracket.closes?, hn]) .nil)
  | label ho hn =>
    exact ho.balanced.append (balanced_of_kind (by simp [Bracket.isOpening, Bracket.closes?, hn]) .nil)
  | stepAfter _ ho _ ih => exact ih.append ho.balanced
  | member _ ho hn ih =>
    exact ih.append (ho.balanced.append
      (balanced_of_kind (by simp [Bracket.isOpening, Bracket.closes?, hn]) .nil))
  | unary ho _ _ ih | stepBefore ho _ _ ih => exact ho.balanced.append ih
  | leftmost _ _ _ ho _ _ _ ihl ihr | rightmost _ _ _ ho _ _ _ ihl ihr =>
    exact ihl.append (ho.balanced.append ihr)
  | more _ hc _ ih ihs =>
    exact ih.append (balanced_of_kind (by simp [Bracket.isOpening, Bracket.closes?, hc]) ihs)
  | noItems => exact .nil

theorem Derives.inside_eq (h : Derives angle ts p) {o c : Token} (hc : Bracket.closes? c = some o.kind)
    (rest : List Token) : Bracket.inside o (ts ++ [c] ++ rest) = .ok (ts, rest) :=
  Bracket.inside_of_balanced h.balanced hc

/-- An atom does not start like a cast: a type does not start a term. -/
theorem Derives.castPrefix?_eq_none {t : Term} (h : Derives angle ts (.atom t)) (rest : List Token) :
    castPrefix? (ts ++ rest) = none := by
  rw [Option.eq_none_iff_forall_ne_some]
  rintro ⟨target, line, after⟩ hcast
  obtain ⟨o, n, c, hts, ho, hn, -, -⟩ := castPrefix?_eq_some.mp hcast
  cases h with
  | literal ht => simp_all [literal?]
  | name ht | call ht => simp_all
  | list ht | angle ht => simp_all
  | parenthesized hopen hinner hc =>
    obtain ⟨first, more, rfl, hty, -⟩ := hinner.starts
    simp only [List.cons_append, List.cons.injEq] at hts
    obtain ⟨-, rfl, -⟩ := hts
    simp [Token.ty?, hn] at hty

/-- What can be cast without a minus sign does not start like a number with one. -/
theorem Derives.negativeNumber?_eq_none {t : Term} (h : Derives angle ts (.level 0 t)) (rest : List Token) :
    negativeNumber? (ts ++ rest) = none := by
  obtain ⟨first, more, rfl, -, hlead, -⟩ := h.starts
  rw [Option.eq_none_iff_forall_ne_some]
  rintro ⟨u, after⟩ hneg
  obtain ⟨m, n, hts, hm, -⟩ := negativeNumber?_eq_some.mp hneg
  obtain ⟨rfl, -⟩ := List.cons.inj hts
  have hminus : lead? first = some (.unary .negate) := lead?_eq_some.mpr ⟨_, hm, .inl ⟨_, rfl, rfl⟩⟩
  simp [hlead] at hminus

end Term

namespace Grammar

variable {P : Token → Prop} {t base : Term} {rest ts : List Token} {angle : Bool} {o : Token} {j : Join}
  {s : Symbol} {α : Type} {Operand : List Token → Term → Prop} {links : List Link} {us : List Token}
  {c : Token} {others : List Term} {n : Nat}

open Term (Derives IsOperator Phrase)

def Follows (P : Token → Prop) (rest : List Token) : Prop := ∀ t more, rest = t :: more → P t

def EndsAtom (t : Token) : Prop := t.kind ≠ .openParen

def EndsOperand (t : Token) : Prop :=
  t.kind ≠ .openParen ∧ t.kind ≠ .operator .increment ∧ t.kind ≠ .operator .decrement ∧
    t.kind ≠ .operator .dot

def EndsChain (angle : Bool) (t : Token) : Prop := EndsOperand t ∧ join? angle t = none

theorem Follows.nil : Follows P [] := fun _ _ h => by cases h

theorem Follows.cons {t : Token} {more : List Token} (h : P t) : Follows P (t :: more) := by
  rintro t more ⟨⟩
  exact h

theorem Follows.mono {Q : Token → Prop} (h : Follows P rest) (hPQ : ∀ t, P t → Q t) : Follows Q rest :=
  fun t more ht => hPQ t (h t more ht)

theorem endsOperand_of_join? {t : Token} (h : join? angle t = some j) : EndsOperand t := by
  obtain ⟨s, hk, hs, -⟩ := join?_eq_some.mp h
  have hall : ∀ s ∈ Symbol.all, (Join.ofSymbol? s).isSome = true →
      s ≠ .increment ∧ s ≠ .decrement ∧ s ≠ .dot := by decide +kernel
  have hne := hall s (Symbol.mem_all s) (by simp [hs])
  simpa [EndsOperand, hk] using hne

theorem suffixes_of_follows (h : Follows EndsOperand rest) : suffixes base rest = (base, rest) := by
  cases rest with
  | nil => rfl
  | cons t more =>
    obtain ⟨-, hinc, hdec, hdot⟩ := h t more rfl
    unfold suffixes
    split <;> simp_all

theorem suffixes_step {step : Step} (ho : o.kind = .operator s) (hs : Step.ofSymbol? s = some step) :
    suffixes base (o :: rest) = suffixes (.step step false base o.line) rest := by
  rw [suffixes.eq_def]
  cases s <;> cases hs <;> simp only [ho]

theorem suffixes_member {n : Token} {name : String} (ho : o.kind = .operator .dot)
    (hn : n.kind = .identifier name) :
    suffixes base (o :: n :: rest) = suffixes (.member base name o.line) rest := by
  rw [suffixes.eq_def]
  simp only [ho, identifier?_eq_some.mpr hn]

/-- A function reads a value off some tokens, whatever follows that may follow. -/
def ReadsUpTo {α : Type} (f : (ts : List Token) → Parsed α ts) (P : Token → Prop) (ts : List Token) (a : α) :
    Prop :=
  ∀ rest, Follows P rest → (f (ts ++ rest)).read = (a, rest)

theorem Follows.append (hts : Follows P ts) (hrest : Follows P rest) : Follows P (ts ++ rest) := by
  cases ts with
  | nil => exact hrest
  | cons t more => exact .cons (hts t more rfl)

theorem Parsed.value_eq {p : Parsed α ts} {a : α} (h : p.read = (a, rest)) :
    p.value = a := congrArg Prod.fst h

theorem Parsed.rest_eq {p : Parsed α ts} {a : α} (h : p.read = (a, rest)) :
    p.rest = rest := congrArg Prod.snd h

def OperandReads (angle : Bool) (ts : List Token) (t : Term) : Prop :=
  ∀ last, ReadsUpTo (operand last angle) EndsOperand ts t

def Suffixed (ts : List Token) (t : Term) : Prop :=
  ∃ run base more, ts = run ++ more ∧ (∀ last, ReadsUpTo (primary last) EndsAtom run base) ∧
    (∀ last angle rest, (operand last angle (run ++ rest)).read =
      suffixes (primary last (run ++ rest)).value (primary last (run ++ rest)).rest) ∧
    Follows EndsAtom more ∧ ∀ rest, suffixes base (more ++ rest) = suffixes t rest

theorem Suffixed.operandReads (h : Suffixed ts t) (angle : Bool) : OperandReads angle ts t := by
  obtain ⟨run, base, more, rfl, hbase, hoperand, hmore, hsuffixes⟩ := h
  intro last rest hrest
  have hfollows : Follows EndsAtom (more ++ rest) := hmore.append (hrest.mono fun _ h => h.1)
  have hread := hbase last (more ++ rest) hfollows
  rw [List.append_assoc, hoperand, Parsed.value_eq hread, Parsed.rest_eq hread, hsuffixes,
    suffixes_of_follows hrest]

/-- One more operator after an operand. -/
theorem Suffixed.snoc {ops : List Token} {u : Term} (h : Suffixed ts t) (hops : ops.head? = some o)
    (ho : o.kind ≠ .openParen) (hs : ∀ rest, suffixes t (ops ++ rest) = suffixes u rest) :
    Suffixed (ts ++ ops) u := by
  obtain ⟨run, base, more, rfl, hbase, hoperand, hmore, hsuffixes⟩ := h
  have hfollows : Follows EndsAtom ops := by
    rintro x others rfl
    cases hops
    exact ho
  exact ⟨run, base, more ++ ops, by simp, hbase, hoperand, hmore.append hfollows,
    fun rest => by rw [List.append_assoc, hsuffixes, hs]⟩

theorem Links.follows (h : Links Operand angle ts links) (hrest : Follows (EndsChain angle) rest) :
    Follows EndsOperand (ts ++ rest) := by
  refine .append ?_ (hrest.mono fun _ h => h.1)
  cases h with
  | nil => exact .nil
  | cons hnext => exact .cons (endsOperand_of_join? hnext)

theorem chain_reads (h : Links (OperandReads angle) angle ts links) (last : Nat) :
    ReadsUpTo (chain last angle) (EndsChain angle) ts links := by
  induction h with
  | nil =>
    intro rest hrest
    cases rest with
    | nil => exact chain_nil
    | cons t more => exact chain_stop (hrest t more rfl).2
  | @cons o j run others t links hj hoperand hlinks ih =>
    intro rest hrest
    have hread := hoperand last (others ++ rest) (hlinks.follows hrest)
    have hchain := ih rest hrest
    rw [List.cons_append, List.append_assoc, chain_link hj, Parsed.value_eq hread, Parsed.rest_eq hread,
      Parsed.value_eq hchain, Parsed.rest_eq hchain]

theorem expression_reads (h : Flat (OperandReads angle) angle Tier.loosest ts t) (last : Nat) :
    ReadsUpTo (expression last angle) (EndsChain angle) ts t := by
  obtain ⟨⟨first, links⟩, ⟨run, others, rfl, hoperand, hlinks⟩, hterm⟩ := h.ofChain_eq
  intro rest hrest
  have hchain := chain_reads hlinks last rest hrest
  have hread := hoperand last (others ++ rest) (hlinks.follows hrest)
  rw [List.append_assoc, expression_read, Parsed.value_eq hread, Parsed.rest_eq hread, Parsed.value_eq hchain,
    Parsed.rest_eq hchain, hterm]

theorem whole_reads (h : Flat (OperandReads false) false Tier.loosest ts t) (last : Nat) :
    whole last ts = t := by
  have hread := expression_reads h last [] .nil
  rw [List.append_nil] at hread
  rw [whole, Parsed.rest_eq hread, Parsed.value_eq hread]

theorem Flat.toOperand (h : Flat Operand angle 3 ts t) : Operand ts t := by
  obtain ⟨⟨first, links⟩, ⟨run, others, rfl, hoperand, hlinks⟩, hgroup⟩ := h
  cases hgroup
  cases hlinks
  rwa [List.append_nil]

theorem operandReads_lead {lead : Lead} (ho : lead? o = some lead) (h : OperandReads angle ts t) :
    OperandReads angle (o :: ts) (lead.term o.line t) := by
  intro last rest hrest
  have hread := h last rest hrest
  rw [List.cons_append, operand_lead ho, Parsed.value_eq hread, Parsed.rest_eq hread]

theorem endsChain_comma {t : Token} (h : t.kind = .comma) : EndsChain angle t := by
  simp [EndsChain, EndsOperand, join?, h]

theorem endsChain_greater {t : Token} (h : t.kind = .operator .greater) : EndsChain true t := by
  simp [EndsChain, EndsOperand, join?, h]

def ComponentsRead (ts : List Token) (parts : List Term) : Prop :=
  ∀ last opening c rest, c.kind = .operator .greater →
    (components last opening (ts ++ [c] ++ rest)).read = (parts, rest)

theorem componentsRead_one (h : Flat (OperandReads true) true Tier.loosest ts t) : ComponentsRead ts [t] := by
  intro last opening c rest hc
  have hread := expression_reads h last (c :: rest) (.cons (endsChain_greater hc))
  rw [List.append_assoc, List.singleton_append, components_read, Parsed.rest_eq hread, Parsed.value_eq hread]
  simp [Token.is, Token.isSymbol, hc]

theorem componentsRead_more (h : Flat (OperandReads true) true Tier.loosest ts t) (hc : c.kind = .comma)
    (hus : ComponentsRead us others) : ComponentsRead (ts ++ c :: us) (t :: others) := by
  intro last opening close rest hclose
  have hread := expression_reads h last (c :: (us ++ [close] ++ rest)) (.cons (endsChain_comma hc))
  have hothers := hus last opening close rest hclose
  have hassoc : ts ++ c :: us ++ [close] ++ rest = ts ++ c :: (us ++ [close] ++ rest) := by simp
  rw [hassoc, components_read, Parsed.rest_eq hread, Parsed.value_eq hread]
  simp [Token.is, hc, Parsed.value_eq hothers, Parsed.rest_eq hothers]

theorem items_one (h : Flat (OperandReads false) false Tier.loosest ts t) (hne : ts ≠ []) (last : Nat) :
    items last ts = [t] := by
  have hread := expression_reads h last [] .nil
  rw [List.append_nil] at hread
  cases ts with
  | nil => exact absurd rfl hne
  | cons first more => rw [items_cons, Parsed.rest_eq hread, Parsed.value_eq hread]

theorem items_more (h : Flat (OperandReads false) false Tier.loosest ts t) (hne : ts ≠ [])
    (hc : c.kind = .comma) (hus : ∀ last, items last us = others) (hmore : us ≠ []) (last : Nat) :
    items last (ts ++ c :: us) = t :: others := by
  have hread := expression_reads h last (c :: us) (.cons (endsChain_comma hc))
  cases ts with
  | nil => exact absurd rfl hne
  | cons first more =>
    cases us with
    | nil => exact absurd rfl hmore
    | cons m ms =>
      rw [List.cons_append] at hread ⊢
      rw [items_cons, Parsed.rest_eq hread, Parsed.value_eq hread]
      simp [Token.is, hc, hus]

def IsRead (angle : Bool) (ts : List Token) : Phrase → Prop
  | .atom t => ∀ last, ReadsUpTo (atom last) EndsAtom ts t
  | .level 0 t => ∀ last, ReadsUpTo (casted last) EndsAtom ts t
  | .level 1 t => ∀ last, ReadsUpTo (primary last) EndsAtom ts t
  | .level 2 t => Suffixed ts t
  | .level (n + 3) t => Flat (OperandReads angle) angle (n + 3) ts t
  | .castable t => ∀ last o n c target rest, castPrefix? (o :: n :: c :: (ts ++ rest)) =
      some (target, o.line, ts ++ rest) → Follows EndsAtom rest →
      (casted last (o :: n :: c :: (ts ++ rest))).read = (.cast target t o.line, rest)
  | .several parts => if angle then ComponentsRead ts parts else ∀ last, items last ts = parts
  | .items args => angle = false → ∀ last, items last ts = args

theorem three_le_of_join (hj : Join.ofSymbol? s = some j)
    (hs : Tier.indexOf? s.text .between = some (n + 1)) : ∃ m, n = m + 3 := by
  obtain ⟨k, -, hk, hindex⟩ := Join.tier_ofSymbol? hj
  rw [hs] at hindex
  cases hindex
  exact ⟨n - 3, by unfold Tier.firstBinary at hk; omega⟩

theorem isRead_looser (hn : n + 1 < Tier.table.length) (hstarts : (Phrase.level n t).Starts ts)
    (h : IsRead angle ts (.level n t)) : IsRead angle ts (.level (n + 1) t) := by
  obtain ⟨first, more, rfl, -, hlead, hat⟩ := hstarts
  match n with
  | 0 =>
    intro last rest hrest
    rw [List.cons_append, primary_other (hat rfl)]
    exact h last rest hrest
  | 1 =>
    exact ⟨first :: more, t, [], by simp, h, fun _ _ _ => operand_base (hlead (by decide)),
      .nil, fun _ => rfl⟩
  | 2 => exact .operand (h.operandReads angle)
  | n + 3 => exact h.looser (by omega) hn

theorem isRead {p : Phrase} (h : Derives angle ts p) : IsRead angle ts p := by
  -- induction on the derivation: each rule is one branch of the function that reads its phrase
  induction h with
  | literal ht => exact fun last rest _ => atom_literal ht
  | name ht => exact fun last rest hrest => atom_name ht hrest
  | @call _ _ o c _ _ _ ht ho hts hc ih =>
    intro last rest _
    have hclose : Bracket.closes? c = some o.kind := by simp [Bracket.closes?, hc, ho]
    have hinside := hts.inside_eq hclose rest
    rw [List.cons_append, List.cons_append, atom_call ht ho, hinside]
    simp only [ih rfl]
  | @parenthesized _ o c _ _ ho hts hc ih =>
    intro last rest _
    have hclose : Bracket.closes? c = some o.kind := by simp [Bracket.closes?, hc, ho]
    have hinside := hts.inside_eq hclose rest
    obtain ⟨first, more, rfl, -⟩ := hts.starts
    rw [List.cons_append, atom_paren ho, hinside]
    simp only [whole_reads ih]
  | @list _ o c _ _ ho hts hc ih =>
    intro last rest _
    have hclose : Bracket.closes? c = some o.kind := by simp [Bracket.closes?, hc, ho]
    have hinside := hts.inside_eq hclose rest
    rw [List.cons_append, atom_bracket ho, hinside]
    simp only [ih rfl]
  | @angle _ o _ _ _ ho _ hc ih =>
    intro last rest _
    have hread := ih last o.line _ rest hc
    rw [List.cons_append, atom_angle ho, Parsed.value_eq hread, Parsed.rest_eq hread]
  | uncast h ih =>
    intro last rest hrest
    rw [casted_atom (h.castPrefix?_eq_none rest)]
    exact ih last rest hrest
  | cast ho hn hc _ ih =>
    intro last rest hrest
    exact ih last _ _ _ _ rest (castPrefix?_eq_some.mpr ⟨_, _, _, rfl, ho, hn, hc, rfl⟩) hrest
  | castable h ih =>
    intro last o n c target rest hcast hrest
    have hread := ih last rest hrest
    rw [casted_cast hcast (h.negativeNumber?_eq_none rest), Parsed.value_eq hread, Parsed.rest_eq hread]
  | negativeInteger hm hn =>
    intro last o n c target rest hcast _
    exact casted_negative hcast (negativeNumber?_eq_some.mpr ⟨_, _, rfl, hm, .inl ⟨_, hn, rfl⟩⟩)
  | negativeFloat hm hn =>
    intro last o n c target rest hcast _
    exact casted_negative hcast (negativeNumber?_eq_some.mpr ⟨_, _, rfl, hm, .inr ⟨_, hn, rfl⟩⟩)
  | label ho hn =>
    intro last rest _
    obtain rfl := indexOf?_label.mp ho.tier
    exact primary_label (by simp [Token.isSymbol, Token.is, ho.kind]) (identifier?_eq_some.mpr hn)
  | @stepAfter _ o _ s step _ _ ho hs ih =>
    exact ih.snoc rfl (by simp [ho.kind]) fun rest => suffixes_step ho.kind hs
  | member _ ho hn ih =>
    obtain rfl := indexOf?_member.mp ho.tier
    exact ih.snoc rfl (by simp [ho.kind]) fun rest => suffixes_member ho.kind hn
  | unary ho hs _ ih =>
    have hlead := lead?_eq_some.mpr ⟨_, ho.kind, .inl ⟨_, hs, rfl⟩⟩
    exact .operand (operandReads_lead hlead (Flat.toOperand ih))
  | stepBefore ho hs _ ih =>
    have hlead := lead?_eq_some.mpr ⟨_, ho.kind, .inr ⟨_, hs, rfl⟩⟩
    exact .operand (operandReads_lead hlead (Flat.toOperand ih))
  | looser hn h ih => exact isRead_looser hn h.starts ih
  | leftmost ht hg _ ho hj ha _ ihl ihr =>
    obtain ⟨m, rfl⟩ := three_le_of_join hj ho.tier
    exact Flat.leftmost (by omega) ht hg ihl ho hj ha ihr
  | rightmost ht hg _ ho hj ha _ ihl ihr =>
    obtain ⟨m, rfl⟩ := three_le_of_join hj ho.tier
    exact Flat.rightmost (by omega) ht hg ihl ho hj ha ihr
  | @one angle ts t h ih =>
    cases angle with
    | true => exact componentsRead_one ih
    | false => exact items_one ih h.starts.ne_nil
  | @more angle c ts us t others h hc hus ih ihs =>
    cases angle with
    | true => exact componentsRead_more ih hc ihs
    | false => exact items_more ih h.starts.ne_nil hc ihs hus.starts
  | noItems => exact fun _ _ => items_nil
  | @someItems angle ts args _ ih =>
    rintro rfl
    exact ih

end Grammar

/-- Tokens that spell a term are read as it. -/
theorem Term.Spelled.ofTokens_eq (h : Term.Spelled ts t) (line : Nat) : Term.ofTokens line ts = t := by
  cases ts with
  | nil => exact absurd rfl (Derives.starts h).ne_nil
  | cons first more => exact whole_reads (isRead h) _

/-- A term that is read without a broken leaf is spelled. -/
theorem Term.spelled_ofTokens {line : Nat} (h : (Term.ofTokens line ts).All .whole) :
    Term.Spelled ts (Term.ofTokens line ts) := by
  cases ts with
  | nil => exact h.elim
  | cons first more => exact whole_spells _ _ h

/-- Tokens spell at most one term. -/
theorem Term.Spelled.unique {u : Term} (ht : Term.Spelled ts t) (hu : Term.Spelled ts u) : t = u := by
  rw [← ht.ofTokens_eq 0, hu.ofTokens_eq 0]

end WorldScript
