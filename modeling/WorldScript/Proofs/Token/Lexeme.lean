import Mathlib.Data.List.Induction
import Mathlib.Data.Nat.Digits.Defs
import WorldScript.Proofs.Token.Number

/-! # Spellings of tokens

The characters that spell a token of each kind, and where they end.  A token is read exactly when the
characters at the start spell it and those after them do not carry it on.
-/

namespace WorldScript.Scan

variable {text : String} {chars after value rest : List Char} {c : Char} {kind : TokenKind} {symbol : Symbol}
  {line : Nat} {found : Lexeme}

def IsWord (chars : List Char) : Prop :=
  (∃ c ∈ chars.head?, isWordStart c = true) ∧ ∀ c ∈ chars, isWordChar c = true

def reserved : List String := Keyword.all.map Keyword.text ++ Ty.all.map Ty.keyword ++ ["quaternion"]

def runValue (base : Nat) (run : List Char) : Nat := Nat.ofDigits base (run.map Number.digitValue).reverse

/-- Whether an integer has the bits of a literal, which are all set where the literal is too large. -/
def IsLiteral (n : Int32) (literal : Nat) : Prop := n.toUInt32.toNat = min literal (2 ^ 32 - 1)

inductive Quotes : List Char → List Char → Prop
  | nil : Quotes [] []
  | plain {c : Char} {body value : List Char} (hc : c ≠ '"' ∧ c ≠ '\\') (h : Quotes body value) :
    Quotes (c :: body) (c :: value)
  | newline {body value : List Char} (h : Quotes body value) : Quotes ('\\' :: 'n' :: body) ('\n' :: value)
  | tab {body value : List Char} (h : Quotes body value) : Quotes ('\\' :: 't' :: body) ('\t' :: value)
  | itself {c : Char} {body value : List Char} (hc : c ≠ 'n' ∧ c ≠ 't') (h : Quotes body value) :
    Quotes ('\\' :: c :: body) (c :: value)

def marks : List (Char × TokenKind) := [
  ('(', .openParen), (')', .closeParen), ('[', .openBracket), (']', .closeBracket), ('\x7b', .openBrace),
  ('\x7d', .closeBrace), (';', .semicolon), (',', .comma)]

/-- The characters of a token of a kind, with the text that the token shows. -/
inductive Spells : TokenKind → String → List Char → Prop
  | identifier {chars : List Char} (hword : IsWord chars) (hfree : String.ofList chars ∉ reserved) :
    Spells (.identifier (String.ofList chars)) (String.ofList chars) chars
  | keyword (word : Keyword) : Spells (.keyword word) word.text word.text.toList
  | typeName (ty : Ty) : Spells (.typeName ty) ty.keyword ty.keyword.toList
  | quaternion : Spells (.typeName .rotation) "quaternion" "quaternion".toList
  | decimal {n : Int32} {run : List Char} (hne : run ≠ []) (hrun : ∀ c ∈ run, c.isDigit = true)
    (hn : IsLiteral n (runValue 10 run)) : Spells (.integer n) (String.ofList run) run
  | hex {n : Int32} {mark : Char} {run : List Char} (hmark : mark = 'x' ∨ mark = 'X') (hne : run ≠ [])
    (hrun : ∀ c ∈ run, Number.isHexDigit c = true) (hn : IsLiteral n (runValue 16 run)) :
    Spells (.integer n) (String.ofList ('0' :: 'x' :: run)) ('0' :: mark :: run)
  | float (d : Decimal) (hfloat : d.isFloat = true) : Spells (.float d.toFloat) (String.ofList d.text) d.chars
  | string {body value : List Char} (h : Quotes body value) :
    Spells (.string (String.ofList value)) (String.ofList ('"' :: (body ++ ['"']))) ('"' :: (body ++ ['"']))
  | operator (symbol : Symbol) : Spells (.operator symbol) symbol.text symbol.text.toList
  | mark {c : Char} {kind : TokenKind} (h : (c, kind) ∈ marks) : Spells kind c.toString [c]

/-- Whether no longer token starts where a token does: a word or a number is not carried on by the
character after it, and no longer symbol stands where an operator does. -/
def Munched (kind : TokenKind) (span after : List Char) : Prop :=
  match kind with
  | .identifier _ | .keyword _ | .typeName _ | .float _ => ∀ c ∈ after.head?, isWordChar c = false
  | .integer _ => ∀ c ∈ after.head?, isWordChar c = false ∧ (span.all Char.isDigit = true → c ≠ '.')
  | .operator symbol =>
    (∀ longer : Symbol, symbol.text.length < longer.text.length → ¬ longer.text.toList <+: span ++ after) ∧
      (symbol = .dot → ∀ c ∈ after.head?, c.isDigit = false)
  | _ => True

instance (chars : List Char) : Decidable (IsWord chars) :=
  decidable_of_iff ((chars.head?.any isWordStart && chars.all isWordChar) = true)
    (by cases chars <;> simp [IsWord])

theorem isWord_keyword (word : Keyword) : IsWord word.text.toList := by
  cases word <;> decide

theorem isWord_typeName (ty : Ty) : IsWord ty.keyword.toList := by
  cases ty <;> decide

theorem mem_reserved :
    text ∈ reserved ↔
      (∃ word : Keyword, text = word.text) ∨ (∃ ty : Ty, text = ty.keyword) ∨ text = "quaternion" := by
  have hwords (word : Keyword) : word ∈ Keyword.all := by cases word <;> decide
  have htypes (ty : Ty) : ty ∈ Ty.all := by cases ty <;> decide
  simp [reserved, hwords, htypes, eq_comm]

theorem wordKind_keyword (word : Keyword) : wordKind word.text = .keyword word := by
  cases word <;> decide

theorem wordKind_typeName (ty : Ty) : wordKind ty.keyword = .typeName ty := by
  cases ty <;> decide

theorem wordKind_free (h : text ∉ reserved) : wordKind text = .identifier text := by
  rw [mem_reserved, not_or, not_or] at h
  obtain ⟨hword, hty, hquaternion⟩ := h
  have htype : Ty.ofKeyword? text = none := by
    rw [Ty.ofKeyword?, if_neg hquaternion, List.find?_eq_none]
    exact fun ty _ h => hty ⟨ty, by simpa [eq_comm] using h⟩
  have hkeyword : Keyword.ofText? text = none := by
    rw [Keyword.ofText?, List.find?_eq_none]
    exact fun word _ h => hword ⟨word, by simpa [eq_comm] using h⟩
  rw [wordKind, htype, hkeyword]

/-- A word spells its keyword, its type or its own name. -/
theorem wordKind_spells (h : IsWord chars) :
    Spells (wordKind (String.ofList chars)) (String.ofList chars) chars := by
  by_cases hfree : String.ofList chars ∈ reserved
  · generalize htext : String.ofList chars = text at hfree
    obtain rfl : chars = text.toList := by simp [← htext]
    obtain ⟨word, rfl⟩ | ⟨ty, rfl⟩ | rfl := mem_reserved.mp hfree
    · exact wordKind_keyword word ▸ .keyword word
    · exact wordKind_typeName ty ▸ .typeName ty
    · exact .quaternion
  · rw [wordKind_free hfree]
    exact .identifier h hfree

theorem wordKind_munched (text : String) (span : List Char) (h : ∀ c ∈ after.head?, isWordChar c = false) :
    Munched (wordKind text) span after := by
  rw [wordKind]
  split
  · exact h
  · split <;> exact h

theorem ofDigits_eq_runValue (base : Nat) (run : List Char) :
    Number.ofDigits base run = runValue base run := by
  induction run using List.reverseRecOn with
  | nil => rfl
  | append_singleton run c ih =>
    rw [Number.ofDigits, List.foldl_concat, ← Number.ofDigits, ih, runValue, runValue, List.map_append,
      List.reverse_append, List.map_singleton, List.reverse_singleton, List.singleton_append,
        Nat.ofDigits_cons]
    ring

theorem isLiteral_iff {n : Int32} {literal : Nat} : IsLiteral n literal ↔ n = literalBits literal := by
  have hbits : (literalBits literal).toUInt32.toNat = min literal (2 ^ 32 - 1) := by
    change (BitVec.ofNat 32 (min literal (UInt32.size - 1))).toNat = _
    rw [BitVec.toNat_ofNat, UInt32.size]
    omega
  rw [IsLiteral, ← hbits, UInt32.toNat_inj]
  exact ⟨fun h => by cases n; cases h; rfl, congrArg _⟩

def Decimal.ofRun (run : List Char) (hne : run ≠ []) (hrun : ∀ c ∈ run, c.isDigit = true) : Decimal :=
  ⟨run, none, none, none, hrun, by simp, by simpa using hne, by simp⟩

theorem Decimal.spells (d : Decimal) : Spells d.kind (String.ofList d.text) d.chars := by
  rw [kind]
  split
  · exact .float d ‹_›
  · rename_i hfloat
    simp only [isFloat, Bool.or_eq_true, Option.isSome_iff_ne_none, not_or, Classical.not_not] at hfloat
    obtain ⟨⟨hfraction, hexponent⟩, hmark⟩ := hfloat
    have hne := d.digits_ne
    simp only [hfraction, Option.getD_none, List.append_nil] at hne
    simp only [text, chars, hfraction, hexponent, hmark, Option.elim_none, Option.toList_none,
      List.append_nil]
    exact .decimal hne d.whole_isDigit (isLiteral_iff.mpr (by rw [ofDigits_eq_runValue]))

theorem Decimal.munched {d : Decimal} (h : d.Ends after) : Munched d.kind d.chars after := by
  rw [kind]
  split
  · exact fun c hc => (h c hc).1
  · rename_i hfloat
    exact fun c hc => ⟨(h c hc).1, fun _ => (h c hc).2 (by simpa using hfloat)⟩

theorem stringBody_read {body : List Char} (h : Quotes body value) (after : List Char) :
    stringBody (body ++ '"' :: after) = some (value, body.length + 1) := by
  induction h with
  | nil => rfl
  | plain hc _ ih =>
    rw [List.cons_append, stringBody, ih]
    · rfl
    · exact hc.1
    · exact fun _ _ h => absurd h hc.2
    · exact fun h => absurd h hc.2
  | newline _ ih => simp [stringBody, ih, unescape]
  | tab _ ih => simp [stringBody, ih, unescape]
  | itself hc _ ih => simp [stringBody, ih, unescape, hc]

theorem take_quoted (body after : List Char) :
    (body ++ '"' :: after).take (body.length + 1) = body ++ ['"'] := by
  rw [List.take_length_add_append, List.take_succ_cons, List.take_zero]

theorem Quotes.escaped (c : Char) {body : List Char} (h : Quotes body value) :
    Quotes ('\\' :: c :: body) (unescape c :: value) := by
  rw [unescape]
  split_ifs with hn ht
  · exact hn ▸ .newline h
  · exact ht ▸ .tab h
  · exact .itself ⟨hn, ht⟩ h

/-- A string that is read ends with a quote, and what stands before spells its value. -/
theorem exists_quotes {size : Nat} (h : stringBody chars = some (value, size)) :
    ∃ body after, chars = body ++ '"' :: after ∧ Quotes body value ∧ size = body.length + 1 := by
  fun_induction stringBody chars generalizing value size with
  | case1 => cases h
  | case2 after =>
    obtain ⟨rfl, rfl⟩ : value = [] ∧ size = 1 := by simpa [eq_comm] using h
    exact ⟨[], after, rfl, .nil, rfl⟩
  | case3 c rest ih =>
    obtain ⟨⟨value, size⟩, hrest, hpair⟩ := Option.map_eq_some_iff.mp h
    obtain ⟨rfl, rfl⟩ := Prod.mk.inj hpair
    obtain ⟨body, after, rfl, hbody, rfl⟩ := ih hrest
    exact ⟨'\\' :: c :: body, after, rfl, hbody.escaped c, rfl⟩
  | case4 => cases h
  | case5 c rest hquote hescape hlast ih =>
    obtain ⟨⟨value, size⟩, hrest, hpair⟩ := Option.map_eq_some_iff.mp h
    obtain ⟨rfl, rfl⟩ := Prod.mk.inj hpair
    obtain ⟨body, after, rfl, hbody, rfl⟩ := ih hrest
    refine ⟨c :: body, after, rfl, .plain ⟨hquote, fun hc => ?_⟩ hbody, rfl⟩
    -- A character follows in any case, the closing quote at last.
    cases body with
    | nil => exact hescape _ _ hc rfl
    | cons next body => exact hescape _ _ hc rfl

theorem punctuation?_eq_some : punctuation? c = some kind ↔ (c, kind) ∈ marks := by
  fun_cases punctuation? c <;> simp_all [marks, eq_comm]

theorem munched_mark (h : (c, kind) ∈ marks) (span after : List Char) : Munched kind span after := by
  simp only [marks, List.mem_cons, Prod.mk.injEq, List.not_mem_nil, or_false] at h
  obtain ⟨-, rfl⟩ | ⟨-, rfl⟩ | ⟨-, rfl⟩ | ⟨-, rfl⟩ | ⟨-, rfl⟩ | ⟨-, rfl⟩ | ⟨-, rfl⟩ | ⟨-, rfl⟩ :=
    h <;> trivial

theorem text_ne_nil (s : Symbol) : s.text.toList ≠ [] := by
  have hall : ∀ s ∈ Symbol.all, s.text.toList ≠ [] := by decide +kernel
  exact hall s s.mem_all

/-- The symbol found is the longest that fits. -/
theorem operator?_longest (h : operator? chars = some symbol) :
    symbol.text.toList <+: chars ∧
      ∀ longer : Symbol, symbol.text.length < longer.text.length → ¬ longer.text.toList <+: chars := by
  obtain ⟨hfits, before, after, hall, hbefore⟩ := List.find?_eq_some_iff_append.mp h
  -- The symbols are listed from the longest on, so a longer one was tried before.
  have hsorted : Symbol.all.Pairwise fun s s' => s'.text.length ≤ s.text.length := by decide +kernel
  rw [hall, List.pairwise_append, List.pairwise_cons] at hsorted
  refine ⟨by simpa using hfits, fun longer hlonger hinitial => ?_⟩
  have hmem := longer.mem_all
  rw [hall, List.mem_append, List.mem_cons] at hmem
  obtain hmem | rfl | hmem := hmem
  · simpa [List.isPrefixOf_iff_prefix.mpr hinitial] using hbefore longer hmem
  · exact Nat.lt_irrefl _ hlonger
  · exact Nat.not_lt.mpr (hsorted.2.1.1 longer hmem) hlonger

theorem text_injective {s s' : Symbol} (h : s.text = s'.text) : s = s' := by
  have hall : ∀ s ∈ Symbol.all, ∀ s' ∈ Symbol.all, s.text = s'.text → s = s' := by decide +kernel
  exact hall s s.mem_all s' s'.mem_all h

/-- The longest symbol that stands at the start is read. -/
theorem operator?_read (h : symbol.text.toList <+: chars)
    (hlongest : ∀ longer : Symbol, symbol.text.length < longer.text.length → ¬ longer.text.toList <+: chars) :
    operator? chars = some symbol := by
  cases hfound : operator? chars with
  | none =>
    have := List.find?_eq_none.mp hfound symbol symbol.mem_all
    simp [h] at this
  | some found =>
    obtain ⟨hinitial, hfoundLongest⟩ := operator?_longest hfound
    have hle : found.text.length ≤ symbol.text.length := Nat.not_lt.mp fun hlt => hlongest found hlt hinitial
    have hge : symbol.text.length ≤ found.text.length := Nat.not_lt.mp fun hlt => hfoundLongest symbol hlt h
    have htext : found.text.toList = symbol.text.toList :=
      (List.prefix_of_prefix_length_le hinitial h
        (by simpa only [String.length_toList] using hle)).eq_of_length_le
        (by simpa only [String.length_toList] using hge)
    rw [text_injective (String.toList_inj.mp htext)]

theorem lexeme_number (h : startsNumber c rest = true) (line : Nat) :
    lexeme line c rest = number line (c :: rest) := by
  rw [lexeme, if_pos h]

theorem lexeme_word (h : isWordStart c = true) (line : Nat) (rest : List Char) :
    lexeme line c rest = .ok (word (c :: rest)) := by
  have hdigit := isDigit_of_isWordStart h
  have hpoint : c ≠ '.' := by
    rintro rfl
    exact absurd h (by decide)
  simp [lexeme, startsNumber, hdigit, hpoint, h]

theorem lexeme_isWord (h : IsWord chars) (hafter : ∀ c ∈ after.head?, isWordChar c = false) (line : Nat) :
    ∃ c tail, chars = c :: tail ∧
      lexeme line c (tail ++ after) = .ok ⟨wordKind (String.ofList chars), String.ofList chars,
        tail.length⟩ := by
  obtain ⟨c, hc, hstart⟩ := h.1
  obtain ⟨tail, rfl⟩ : ∃ tail, chars = c :: tail := ⟨_, List.eq_cons_of_mem_head? hc⟩
  refine ⟨c, tail, rfl, ?_⟩
  rw [lexeme_word hstart, word, ← List.cons_append, (span_eq_iff.mpr ⟨rfl, h.2, hafter⟩).1]
  rfl

theorem lexeme_decimal (d : Decimal) (h : d.Ends after) (line : Nat) :
    ∃ c tail, d.chars = c :: tail ∧
      lexeme line c (tail ++ after) = .ok ⟨d.kind, String.ofList d.text, tail.length⟩ := by
  obtain ⟨c, tail, hchars, hstart⟩ := d.starts after
  refine ⟨c, tail, hchars, ?_⟩
  rw [lexeme_number hstart, ← List.cons_append, ← hchars, d.number_read h, hchars]
  rfl

theorem lexeme_quote (line : Nat) (rest : List Char) : lexeme line '"' rest = stringLiteral line rest := by
  have hnumber : startsNumber '"' rest = false := by simp [startsNumber]
  rw [lexeme, hnumber]
  rfl

theorem lexeme_mark (h : (c, kind) ∈ marks) (line : Nat) (rest : List Char) :
    lexeme line c rest = .ok ⟨kind, c.toString, 0⟩ := by
  have hall : ∀ entry ∈ marks, entry.1.isDigit = false ∧ entry.1 ≠ '.' ∧ isWordStart entry.1 = false ∧
      entry.1 ≠ '"' := by decide
  obtain ⟨hdigit, hdot, hword, hquote⟩ := hall _ h
  simp [lexeme, startsNumber, hdigit, hdot, hword, hquote, punctuation?_eq_some.mpr h]

theorem lexeme_operator (h : operator? (c :: rest) = some symbol)
    (hdot : symbol = .dot → ∀ c ∈ rest.head?, c.isDigit = false) (line : Nat) :
    lexeme line c rest = .ok ⟨.operator symbol, symbol.text, symbol.text.length - 1⟩ := by
  have hall : ∀ s ∈ Symbol.all, (s.text.toList.headD ' ').isDigit = false ∧
      isWordStart (s.text.toList.headD ' ') = false ∧ s.text.toList.headD ' ' ≠ '"' ∧
      (punctuation? (s.text.toList.headD ' ')).isNone = true ∧
      (s.text.toList.headD ' ' = '.' → s = .dot) := by decide +kernel
  obtain ⟨first, tail, htext⟩ := List.exists_cons_of_ne_nil (text_ne_nil symbol)
  have hinitial := (operator?_longest h).1
  rw [htext, List.cons_prefix_cons] at hinitial
  obtain ⟨rfl, -⟩ := hinitial
  have hfirst := hall symbol symbol.mem_all
  rw [htext, List.headD_cons] at hfirst
  obtain ⟨hdigit, hword, hquote, hmark, hpoint⟩ := hfirst
  have hnumber : startsNumber first rest = false := by
    simp only [startsNumber, hdigit, Bool.false_or, Bool.and_eq_false_imp, decide_eq_true_eq]
    intro hfirst
    have hrest := hdot (hpoint hfirst)
    cases rest with
    | nil => rfl
    | cons next rest => simpa using hrest next rfl
  simp [lexeme, hnumber, hword, hquote, Option.isNone_iff_eq_none.mp hmark, h]

/-- What spells a token is read as it. -/
theorem Spells.read {span : List Char} (h : Spells kind text span) (hm : Munched kind span after)
    (line : Nat) :
    ∃ c tail, span = c :: tail ∧ lexeme line c (tail ++ after) = .ok ⟨kind, text, tail.length⟩ := by
  cases h with
  | identifier hword hfree =>
    rw [← wordKind_free hfree]
    exact lexeme_isWord hword hm line
  | keyword word =>
    simpa [wordKind_keyword] using lexeme_isWord (isWord_keyword word) hm line
  | typeName ty =>
    simpa [wordKind_typeName] using lexeme_isWord (isWord_typeName ty) hm line
  | quaternion => exact lexeme_isWord (show IsWord "quaternion".toList by decide) hm line
  | decimal hne hrun hn =>
    have hends : (Decimal.ofRun span hne hrun).Ends after := fun c hc =>
      ⟨(hm c hc).1, fun _ => (hm c hc).2 (List.all_eq_true.mpr hrun)⟩
    simpa [Decimal.chars, Decimal.text, Decimal.kind, Decimal.isFloat, Decimal.ofRun, ofDigits_eq_runValue,
      ← isLiteral_iff.mp hn] using lexeme_decimal _ hends line
  | @hex n mark run hmark hne hrun hn =>
    refine ⟨'0', mark :: run, rfl, ?_⟩
    rw [lexeme_number (by simp [startsNumber]), List.cons_append, number_hex hmark, hexNumber_ok_iff]
    refine ⟨run, after, rfl, hne, hrun, fun c hc => (hm c hc).1, ?_⟩
    rw [ofDigits_eq_runValue, ← isLiteral_iff.mp hn]
    rfl
  | float d hfloat =>
    have hkind : d.kind = .float d.toFloat := by rw [Decimal.kind, if_pos hfloat]
    have hends : d.Ends after := fun c hc => ⟨hm c hc, by simp [hfloat]⟩
    exact hkind ▸ lexeme_decimal d hends line
  | @string body value hquotes =>
    refine ⟨'"', body ++ ['"'], rfl, ?_⟩
    rw [lexeme_quote, stringLiteral, List.append_assoc, List.singleton_append, stringBody_read hquotes]
    simp [take_quoted]
  | operator symbol =>
    obtain ⟨c, tail, htext⟩ := List.exists_cons_of_ne_nil (text_ne_nil symbol)
    refine ⟨c, tail, htext, ?_⟩
    have hread : operator? (c :: (tail ++ after)) = some symbol := by
      rw [← List.cons_append, ← htext]
      exact operator?_read (List.prefix_append _ _) hm.1
    have hdot : symbol = .dot → ∀ c ∈ (tail ++ after).head?, c.isDigit = false := by
      rintro rfl
      obtain rfl : tail = [] := (List.cons.inj htext).2.symm
      exact hm.2 rfl
    have hlength : symbol.text.length = tail.length + 1 := by
      rw [← String.length_toList, htext, List.length_cons]
    rw [lexeme_operator hread hdot, hlength]
    rfl
  | mark hmark => exact ⟨_, [], rfl, lexeme_mark hmark line after⟩

theorem word_spells (h : isWordStart c = true) (rest : List Char) :
    ∃ tail after, rest = tail ++ after ∧ (word (c :: rest)).size = tail.length ∧
      Spells (word (c :: rest)).kind (word (c :: rest)).text (c :: tail) ∧
      Munched (word (c :: rest)).kind (c :: tail) after := by
  have hc := isWordChar_of_isWordStart h
  obtain ⟨hrest, htail, hafter⟩ := span_eq_iff.mp ⟨rfl, rfl⟩
  have hword : IsWord (c :: rest.takeWhile isWordChar) := ⟨⟨c, rfl, h⟩, List.forall_mem_cons.mpr ⟨hc, htail⟩⟩
  rw [word, List.takeWhile_cons_of_pos hc]
  exact ⟨_, _, hrest, rfl, wordKind_spells hword, wordKind_munched _ _ hafter⟩

/-- A number that is read is spelled by its characters, and no longer one is. -/
theorem number_spells (h : number line (c :: rest) = .ok found) (hstart : startsNumber c rest = true) :
    ∃ tail after, rest = tail ++ after ∧ found.size = tail.length ∧ Spells found.kind found.text (c :: tail) ∧
      Munched found.kind (c :: tail) after := by
  by_cases hhex : ∃ mark after, c :: rest = '0' :: mark :: after ∧ (mark = 'x' ∨ mark = 'X')
  · obtain ⟨mark, tail, hchars, hmark⟩ := hhex
    obtain ⟨rfl, rfl⟩ := List.cons.inj hchars
    rw [number_hex hmark] at h
    obtain ⟨run, after, rfl, hne, hrun, hafter, rfl⟩ := hexNumber_ok_iff.mp h
    refine ⟨mark :: run, after, rfl, rfl,
      .hex hmark hne hrun (isLiteral_iff.mpr (by rw [ofDigits_eq_runValue])), ?_⟩
    intro c hc
    refine ⟨hafter c hc, fun hdigits => ?_⟩
    have hdigit : mark.isDigit = true := List.all_eq_true.mp hdigits mark (by simp)
    obtain rfl | rfl := hmark <;> exact absurd hdigit (by decide)
  · have hdecimal := number_decimal (fun mark after hchars hmark => hhex ⟨mark, after, hchars, hmark⟩) line
    rw [hdecimal] at h
    obtain ⟨d, after, hchars, hends⟩ := exists_decimal h hstart
    rw [hchars, d.read hends] at h
    obtain rfl := Except.ok.inj h
    obtain ⟨first, tail, hd, -⟩ := d.starts after
    rw [hd] at hchars
    obtain ⟨rfl, rfl⟩ := List.cons.inj hchars
    exact ⟨tail, after, rfl, by simp [hd], hd ▸ d.spells, hd ▸ Decimal.munched hends⟩

theorem stringLiteral_spells (h : stringLiteral line rest = .ok found) :
    ∃ tail after, rest = tail ++ after ∧ found.size = tail.length ∧
      Spells found.kind found.text ('"' :: tail) ∧
      Munched found.kind ('"' :: tail) after := by
  rw [stringLiteral] at h
  split at h
  · cases h
  · rename_i value size hbody
    obtain ⟨body, after, rfl, hquotes, rfl⟩ := exists_quotes hbody
    obtain rfl := Except.ok.inj h
    refine ⟨body ++ ['"'], after, by simp, by simp, ?_, trivial⟩
    rw [take_quoted]
    exact .string hquotes

theorem operator_spells (h : operator? (c :: rest) = some symbol) (hdot : startsNumber c rest = false) :
    ∃ tail after, rest = tail ++ after ∧ symbol.text.length - 1 = tail.length ∧
      Spells (.operator symbol) symbol.text (c :: tail) ∧ Munched (.operator symbol) (c :: tail) after := by
  obtain ⟨hinitial, hlongest⟩ := operator?_longest h
  obtain ⟨first, tail, htext⟩ := List.exists_cons_of_ne_nil (text_ne_nil symbol)
  rw [htext] at hinitial
  obtain ⟨after, hafter⟩ := hinitial
  obtain ⟨rfl, rfl⟩ : first = c ∧ tail ++ after = rest := List.cons.inj hafter
  refine ⟨tail, after, rfl, ?_, htext ▸ .operator symbol, hlongest, ?_⟩
  · rw [← String.length_toList, htext]
    rfl
  · rintro rfl c' hc'
    obtain ⟨rfl, rfl⟩ : '.' = first ∧ [] = tail := List.cons.inj htext
    simp only [startsNumber, List.nil_append] at hdot
    rw [Option.mem_def.mp hc'] at hdot
    simpa using hdot

/-- What is read as a token spells it. -/
theorem lexeme_spells (h : lexeme line c rest = .ok found) :
    ∃ tail after, rest = tail ++ after ∧ found.size = tail.length ∧ Spells found.kind found.text (c :: tail) ∧
      Munched found.kind (c :: tail) after := by
  rw [lexeme] at h
  split at h
  · exact number_spells h ‹_›
  rename_i hnumber
  split at h
  · obtain rfl := Except.ok.inj h
    exact word_spells ‹_› rest
  split at h
  · rename_i hquote
    subst hquote
    exact stringLiteral_spells h
  split at h
  · rename_i kind hkind
    obtain rfl := Except.ok.inj h
    have hmark := punctuation?_eq_some.mp hkind
    exact ⟨[], rest, rfl, rfl, .mark hmark, munched_mark hmark _ _⟩
  split at h
  · rename_i symbol hsymbol
    obtain rfl := Except.ok.inj h
    exact operator_spells hsymbol (by simpa using hnumber)
  · cases h

end WorldScript.Scan
