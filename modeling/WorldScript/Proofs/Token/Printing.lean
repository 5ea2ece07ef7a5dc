import WorldScript.Proofs.Token.Partition

/-! # Printed tokens

Tokens are printed in order with gaps between them, each of which starts with a blank.  Scanning the page
gives the tokens back, each on the line where it was printed.
-/

namespace WorldScript.Scan

variable {c : Char} {kind : TokenKind} {chars after : List Char}

/-- A value and what is written for it between quotes: a backslash stands before a quote or a backslash,
and newlines and tabs are written as they are or by their letters. -/
inductive Escapes : List Char → List Char → Prop
  | nil : Escapes [] []
  | plain {c : Char} {value body : List Char} (hc : c ≠ '"' ∧ c ≠ '\\') (h : Escapes value body) :
    Escapes (c :: value) (c :: body)
  | escaped {c : Char} {value body : List Char} (hc : c = '"' ∨ c = '\\') (h : Escapes value body) :
    Escapes (c :: value) ('\\' :: c :: body)
  | newline {value body : List Char} (h : Escapes value body) : Escapes ('\n' :: value) ('\\' :: 'n' :: body)
  | tab {value body : List Char} (h : Escapes value body) : Escapes ('\t' :: value) ('\\' :: 't' :: body)

/-- What is printed for a token of a kind.  The digits of a hexadecimal may be of either case. -/
inductive Prints : TokenKind → List Char → Prop
  | identifier {name : String} (hword : IsWord name.toList) (hfree : name ∉ reserved) :
    Prints (.identifier name) name.toList
  | keyword (word : Keyword) : Prints (.keyword word) word.text.toList
  | typeName (ty : Ty) : Prints (.typeName ty) ty.keyword.toList
  | quaternion : Prints (.typeName .rotation) "quaternion".toList
  | decimal (n : Int32) : Prints (.integer n) (Nat.toDigits 10 n.toUInt32.toNat)
  | hex (n : Int32) {digits : List Char} (h : digits.map Char.toLower = Nat.toDigits 16 n.toUInt32.toNat) :
    Prints (.integer n) ('0' :: 'x' :: digits)
  | string {value : String} {body : List Char} (h : Escapes value.toList body) :
    Prints (.string value) ('"' :: (body ++ ['"']))
  | operator (symbol : Symbol) : Prints (.operator symbol) symbol.text.toList
  | mark {c : Char} {kind : TokenKind} (h : (c, kind) ∈ marks) : Prints kind [c]

structure Printed where
  kind : TokenKind
  gap : List Char
  chars : List Char
  isGap : Gap gap
  prints : Prints kind chars

def page (items : List Printed) (trail : List Char) : List Char :=
  (items.flatMap fun p => p.gap ++ p.chars) ++ trail

def printedOn (number : Nat) : List Printed → List (TokenKind × Nat)
  | [] => []
  | p :: rest =>
    (p.kind, number + p.gap.count '\n') :: printedOn (number + (p.gap ++ p.chars).count '\n') rest

def StartsBlank (chars : List Char) : Prop := ∃ c ∈ chars.head?, Text.isBlank c = true

instance (chars : List Char) : Decidable (StartsBlank chars) :=
  decidable_of_iff (chars.head?.any Text.isBlank = true) (by cases chars <;> simp [StartsBlank])

theorem digitChar_spec :
    ∀ d < 16, Number.digitValue d.digitChar = d ∧ Number.isHexDigit d.digitChar = true := by
  decide

theorem exists_digitChar {base : Nat} (hbase : 1 < base) (n : Nat) :
    ∀ c ∈ Nat.toDigits base n, ∃ d < base, c = d.digitChar := by
  induction n using Nat.strongRecOn with
  | ind n ih =>
    by_cases hn : n < base
    · rw [Nat.toDigits_of_lt_base hn]
      exact fun c hc => ⟨n, hn, List.mem_singleton.mp hc⟩
    · rw [Nat.toDigits_of_base_le hbase (Nat.not_lt.mp hn)]
      intro c hc
      obtain hc | hc := List.mem_append.mp hc
      · exact ih (n / base) (Nat.div_lt_self (by omega) hbase) c hc
      · exact ⟨n % base, Nat.mod_lt n (by omega), List.mem_singleton.mp hc⟩

/-- The digits of a number have its value. -/
theorem runValue_toDigits {base : Nat} (hbase : 1 < base) (hle : base ≤ 16) (n : Nat) :
    runValue base (Nat.toDigits base n) = n := by
  rw [← ofDigits_eq_runValue]
  induction n using Nat.strongRecOn with
  | ind n ih =>
    by_cases hn : n < base
    · rw [Nat.toDigits_of_lt_base hn, Number.ofDigits, List.foldl_cons, List.foldl_nil,
        (digitChar_spec n (by omega)).1]
      omega
    · have hmod : n % base < base := Nat.mod_lt n (by omega)
      rw [Nat.toDigits_of_base_le hbase (Nat.not_lt.mp hn), Number.ofDigits, List.foldl_concat,
        ← Number.ofDigits,
        ih (n / base) (Nat.div_lt_self (by omega) hbase), (digitChar_spec (n % base) (by omega)).1]
      exact Nat.div_add_mod' n base

theorem toLower_of_not_ascii (h : ¬ c.toNat < 128) : c.toLower = c :=
  dif_neg fun hupper => h (toNat_of_le hupper.2 (by decide))

/-- A digit of either case has the value of the small one. -/
theorem digit_toLower (h : Number.isHexDigit c.toLower = true) :
    Number.isHexDigit c = true ∧ Number.digitValue c = Number.digitValue c.toLower := by
  by_cases hc : c.toNat < 128
  · have hall : ∀ n < 128, Number.isHexDigit (Char.ofNat n).toLower = true →
        Number.isHexDigit (Char.ofNat n) = true ∧
          Number.digitValue (Char.ofNat n) = Number.digitValue (Char.ofNat n).toLower := by decide +kernel
    exact ascii_forall (P := fun c => Number.isHexDigit c.toLower = true → Number.isHexDigit c = true ∧
      Number.digitValue c = Number.digitValue c.toLower) hall hc h
  · rw [toLower_of_not_ascii hc] at h ⊢
    exact ⟨h, rfl⟩

theorem isLiteral_toNat (n : Int32) : IsLiteral n n.toUInt32.toNat := by
  have := n.toUInt32.toNat_lt
  rw [IsLiteral]
  omega

theorem Escapes.quotes {value body : List Char} (h : Escapes value body) : Quotes body value := by
  induction h with
  | nil => exact .nil
  | plain hc _ ih => exact .plain hc ih
  | escaped hc _ ih => exact .itself (by obtain rfl | rfl := hc <;> decide) ih
  | newline _ ih => exact .newline ih
  | tab _ ih => exact .tab ih

theorem hex_spells {n : Int32} {digits : List Char}
    (h : digits.map Char.toLower = Nat.toDigits 16 n.toUInt32.toNat) :
    Spells (.integer n) (String.ofList ('0' :: 'x' :: digits)) ('0' :: 'x' :: digits) := by
  have hhex : ∀ c ∈ digits, Number.isHexDigit c.toLower = true := by
    intro c hc
    have hmem : c.toLower ∈ Nat.toDigits 16 n.toUInt32.toNat := h ▸ List.mem_map_of_mem hc
    obtain ⟨d, hd, hdigit⟩ := exists_digitChar (by decide) _ _ hmem
    rw [hdigit]
    exact (digitChar_spec d hd).2
  have hne : digits ≠ [] := by
    rintro rfl
    exact Nat.toDigits_ne_nil h.symm
  have hvalue : runValue 16 digits = n.toUInt32.toNat := by
    calc
      runValue 16 digits = runValue 16 (digits.map Char.toLower) := by
        rw [runValue, runValue, List.map_map]
        congr 2
        exact List.map_congr_left fun c hc => (digit_toLower (hhex c hc)).2
      _ = runValue 16 (Nat.toDigits 16 n.toUInt32.toNat) := by rw [h]
      _ = n.toUInt32.toNat := runValue_toDigits (by decide) (by decide) _
  refine .hex (.inl rfl) hne (fun c hc => (digit_toLower (hhex c hc)).1) ?_
  rw [hvalue]
  exact isLiteral_toNat n

theorem Prints.spells (h : Prints kind chars) : ∃ text, Spells kind text chars := by
  cases h with
  | @identifier name hword hfree =>
    have := Spells.identifier hword (by simpa using hfree)
    exact ⟨_, by simpa using this⟩
  | keyword word => exact ⟨_, .keyword word⟩
  | typeName ty => exact ⟨_, .typeName ty⟩
  | quaternion => exact ⟨_, .quaternion⟩
  | decimal n =>
    refine ⟨_,
      .decimal Nat.toDigits_ne_nil (fun c hc => Nat.isDigit_of_mem_toDigits (by decide) (by decide) hc) ?_⟩
    rw [runValue_toDigits (by decide) (by decide)]
    exact isLiteral_toNat n
  | hex n hdigits => exact ⟨_, hex_spells hdigits⟩
  | @string value body hescapes =>
    have := Spells.string hescapes.quotes
    exact ⟨_, by simpa using this⟩
  | operator symbol => exact ⟨_, .operator symbol⟩
  | mark hmark => exact ⟨_, .mark hmark⟩

theorem isBlank_of_isWordChar (h : isWordChar c = true) : Text.isBlank c = false := by
  have hall : ∀ n < 128, isWordChar (Char.ofNat n) = true → Text.isBlank (Char.ofNat n) = false :=
    by decide +kernel
  exact ascii_forall (P := fun c => isWordChar c = true → Text.isBlank c = false) hall
    (toNat_of_isWordChar h) h

theorem isWordChar_of_isBlank (h : Text.isBlank c = true) : isWordChar c = false := by
  have := mt isBlank_of_isWordChar (by simpa using h)
  simpa using this

theorem startsSolid_run (hne : chars ≠ []) (h : ∀ c ∈ chars, isWordChar c = true) (after : List Char) :
    startsSolid (chars ++ after) = true := by
  obtain ⟨c, tail, rfl⟩ := List.exists_cons_of_ne_nil hne
  have hc := h c (by simp)
  refine startsSolid_cons.mpr ⟨isBlank_of_isWordChar hc, ?_⟩
  rintro rfl
  exact absurd hc (by decide)

/-- A symbol that goes on with a blank would have to hold it. -/
theorem not_longer {symbol longer : Symbol} {blank : Char} (hblank : Text.isBlank blank = true)
    (hlonger : symbol.text.length < longer.text.length) (rest : List Char) :
    ¬ longer.text.toList <+: symbol.text.toList ++ blank :: rest := by
  intro hinitial
  have hall : ∀ s ∈ Symbol.all, s.text.toList.all (!Text.isBlank ·) = true := by decide +kernel
  have hsnoc : symbol.text.toList ++ [blank] <+: longer.text.toList := by
    refine List.prefix_of_prefix_length_le ⟨rest, by simp⟩ hinitial ?_
    rw [List.length_append, String.length_toList, String.length_toList]
    exact hlonger
  have hfalse := List.all_eq_true.mp (hall longer longer.mem_all) blank (hsnoc.subset (by simp))
  simp [hblank] at hfalse

theorem Prints.munched (h : Prints kind chars) (hafter : StartsBlank after) : Munched kind chars after := by
  obtain ⟨blank, hhead, hblank⟩ := hafter
  obtain ⟨rest, rfl⟩ : ∃ rest, after = blank :: rest := ⟨_, List.eq_cons_of_mem_head? hhead⟩
  have hword : ∀ c ∈ (blank :: rest).head?, isWordChar c = false := by
    simpa using isWordChar_of_isBlank hblank
  cases h with
  | identifier | keyword | typeName | quaternion => exact hword
  | decimal | hex =>
    refine fun c hc => ⟨hword c hc, fun _ hpoint => ?_⟩
    obtain rfl : blank = '.' := by simpa [hpoint] using hc
    exact absurd hblank (by decide)
  | string => trivial
  | operator symbol =>
    exact ⟨fun longer hlonger => not_longer hblank hlonger rest, fun _ c hc => (ends_part (hword c hc)).1⟩
  | mark hmark => exact munched_mark hmark _ _

/-- A division sign opens no comment before a blank. -/
theorem startsSolid_symbol (symbol : Symbol) (hafter : StartsBlank after) :
    startsSolid (symbol.text.toList ++ after) = true := by
  have hall : ∀ s ∈ Symbol.all, Text.isBlank (s.text.toList.headD ' ') = false ∧
      (s.text.toList.headD ' ' = '/' → s = .slash ∨ s = .divAssign) := by decide +kernel
  obtain ⟨c, tail, htext⟩ := List.exists_cons_of_ne_nil (text_ne_nil symbol)
  have hfirst := hall symbol symbol.mem_all
  rw [htext, List.headD_cons] at hfirst
  obtain ⟨hsolid, hslash⟩ := hfirst
  rw [htext]
  refine startsSolid_cons.mpr ⟨hsolid, fun hc => ?_⟩
  obtain rfl | rfl := hslash hc
  · obtain rfl : tail = [] := (List.cons.inj htext).2.symm
    obtain ⟨blank, hhead, hblank⟩ := hafter
    change after.head? ≠ some '/' ∧ after.head? ≠ some '*'
    rw [Option.mem_def.mp hhead]
    refine ⟨?_, ?_⟩ <;> rintro ⟨⟩ <;> exact absurd hblank (by decide)
  · obtain rfl : tail = ['='] := (List.cons.inj htext).2.symm
    simp

theorem Prints.solid (h : Prints kind chars) (hafter : StartsBlank after) :
    startsSolid (chars ++ after) = true := by
  cases h with
  | @identifier name hword =>
    have hne : name.toList ≠ [] := by
      intro hnil
      simp [IsWord, hnil] at hword
    exact startsSolid_run hne hword.2 after
  | keyword word => exact startsSolid_run (by cases word <;> decide) (isWord_keyword word).2 after
  | typeName ty => exact startsSolid_run (by cases ty <;> decide) (isWord_typeName ty).2 after
  | quaternion => exact startsSolid_run (by decide) (show IsWord "quaternion".toList by decide).2 after
  | decimal n =>
    refine startsSolid_run Nat.toDigits_ne_nil (fun c hc => ?_) after
    simp [isWordChar, Char.isAlphanum, Nat.isDigit_of_mem_toDigits (by decide) (by decide) hc]
  | hex n => exact startsSolid_run (List.cons_ne_nil '0' []) (List.forall_mem_singleton.mpr (by decide)) _
  | string => exact startsSolid_cons.mpr ⟨by decide, fun h => by cases h⟩
  | operator symbol => exact startsSolid_symbol symbol hafter
  | mark hmark =>
    have hall : ∀ entry ∈ marks, Text.isBlank entry.1 = false ∧ entry.1 ≠ '/' := by decide
    obtain ⟨hblank, hslash⟩ := hall _ hmark
    exact startsSolid_cons.mpr ⟨hblank, fun h => absurd h hslash⟩

theorem StartsBlank.append (h : StartsBlank chars) (rest : List Char) : StartsBlank (chars ++ rest) := by
  obtain ⟨c, hc, hblank⟩ := h
  refine ⟨c, ?_, hblank⟩
  rw [List.head?_append, Option.mem_def.mp hc]
  rfl

/-- A page is cut into the tokens printed on it. -/
theorem cut_page {items : List Printed} {trail : List Char} (before : List Char)
    (hseparated : ∀ p ∈ items.tail, StartsBlank p.gap) (hgap : Gap trail) (htrail : StartsBlank trail) :
    ∃ tokens, Cut before (page items trail) tokens ∧
      tokens.map (fun t => (t.kind, t.line)) = printedOn (1 + before.count '\n') items := by
  induction items generalizing before with
  | nil => exact ⟨[], .done hgap, rfl⟩
  | cons p rest ih =>
    have hafter : StartsBlank (page rest trail) := by
      cases rest with
      | nil => exact htrail
      | cons q rest =>
        have hq := hseparated q List.mem_cons_self
        simpa [page] using hq.append _
    obtain ⟨tokens, hcut, hshown⟩ :=
      ih (before ++ p.gap ++ p.chars) fun q hq => hseparated q (List.mem_of_mem_tail hq)
    obtain ⟨text, hspells⟩ := p.prints.spells
    have hpage : page (p :: rest) trail = p.gap ++ (p.chars ++ page rest trail) := by simp [page]
    refine ⟨⟨p.kind, text, 1 + (before ++ p.gap).count '\n'⟩ :: tokens, ?_, ?_⟩
    · rw [hpage]
      exact .token p.isGap (p.prints.solid hafter) hspells (p.prints.munched hafter) rfl hcut
    · rw [List.map_cons, hshown, printedOn]
      simp only [List.count_append, Nat.add_assoc]

end WorldScript.Scan

namespace WorldScript

open Scan

/-- Scanning a page gives the tokens that are printed on it, with their lines. -/
theorem tokenize_page (items : List Printed) (trail : List Char)
    (hseparated : ∀ p ∈ items.tail, StartsBlank p.gap) (htrail : trail = [] ∨ Gap trail ∧ StartsBlank trail) :
    ∃ tokens, tokenize [] (String.ofList (page items trail)) = .ok tokens ∧
      tokens.map (fun t => (t.kind, t.line)) = printedOn 1 items := by
  have hnewline : Gap ['\n'] := .blank (by decide) .nil
  have hended : Gap (trail ++ ['\n']) ∧ StartsBlank (trail ++ ['\n']) := by
    obtain rfl | ⟨hgap, hblank⟩ := htrail
    · exact ⟨hnewline, '\n', rfl, by decide⟩
    · exact ⟨hgap.append hnewline, hblank.append _⟩
  obtain ⟨tokens, hcut, hshown⟩ := cut_page [] hseparated hended.1 hended.2
  refine ⟨tokens, ?_, hshown⟩
  rw [tokenize_eq_ok_iff (by simp), stream_nil, String.toList_ofList]
  simpa only [page, List.append_assoc] using hcut

theorem Sample.escaped : Escapes "\"\n".toList ['\\', '"', '\n'] :=
  have hplain : Escapes ['\n'] ['\n'] := .plain (by decide) .nil
  .escaped (.inl rfl) hplain

def Sample.printed : List Printed := [
  ⟨.keyword .ifWord, [], "if".toList, .nil, .keyword .ifWord⟩,
  ⟨.operator .slash, ' ' :: '/' :: '*' :: (['*', '\n'] ++ '*' :: '/' :: []), "/".toList,
    .blank (by decide) (.blockComment (by decide) .nil), .operator .slash⟩,
  ⟨.integer (-1), ['\t'], "0xFFFFffff".toList, .blank (by decide) .nil, .hex (-1) (by decide)⟩,
  ⟨.string "\"\n", ' ' :: '/' :: '/' :: (['"'] ++ '\n' :: []), ['"', '\\', '"', '\n', '"'],
    .blank (by decide) (.lineComment (by decide) .nil), .string Sample.escaped⟩,
  ⟨.identifier "iff", [' '], "iff".toList, .blank (by decide) .nil, .identifier (by decide) (by decide)⟩]

theorem printed_read :
    (∀ p ∈ Sample.printed.tail, StartsBlank p.gap) ∧
      ∃ tokens, tokenize [] (String.ofList (page Sample.printed [])) = .ok tokens ∧
        tokens.map (fun t => (t.kind, t.line)) =
          [(.keyword .ifWord, 1), (.operator .slash, 2), (.integer (-1), 2), (.string "\"\n", 3),
            (.identifier "iff", 4)] := by
  have hseparated : ∀ p ∈ Sample.printed.tail, StartsBlank p.gap := by decide
  exact ⟨hseparated, tokenize_page Sample.printed [] hseparated (.inl rfl)⟩

end WorldScript
