import Mathlib.Data.List.Basic
import Mathlib.Data.List.TakeWhile
import WorldScript.Proofs.Outcome
import WorldScript.Token.Scan

/-! # Spellings of numbers

A decimal is read part by part: digits, a fraction, an exponent, a float mark.  Each part takes all the
characters it can, so a decimal is read exactly where its parts stand and nothing carries them on.
-/

namespace WorldScript.Scan

variable {after rest : List Char} {c : Char} {line : Nat} {run : List Char} {fraction : Option (List Char)}
  {found : Lexeme}

def Run (p : Char → Bool) (run after : List Char) : Prop :=
  (∀ c ∈ run, p c = true) ∧ ∀ c ∈ after.head?, p c = false

theorem span_eq_iff {p : Char → Bool} {chars : List Char} :
    chars.takeWhile p = run ∧ chars.dropWhile p = after ↔ chars = run ++ after ∧ Run p run after := by
  constructor
  · rintro ⟨rfl, rfl⟩
    refine ⟨List.takeWhile_append_dropWhile.symm, fun c hc => List.mem_takeWhile_imp hc, fun c hc => ?_⟩
    have := List.head?_dropWhile_not p chars
    rw [Option.mem_def.mp hc] at this
    simpa using this
  · rintro ⟨rfl, hrun, hafter⟩
    rw [List.takeWhile_append_of_pos hrun, List.dropWhile_append_of_pos hrun]
    cases after with
    | nil => simp
    | cons c after => simp [hafter c rfl]

/-- A character of a class before the rest, or none and no character of the class at the start of the rest. -/
def Lead (p : Char → Prop) (lead : Option Char) (rest : List Char) : Prop :=
  (∀ c ∈ lead, p c) ∧ (lead = none → ∀ c ∈ rest.head?, ¬ p c)

theorem exists_lead (p : Char → Prop) [DecidablePred p] (chars : List Char) :
    ∃ lead rest, chars = lead.toList ++ rest ∧ Lead p lead rest := by
  cases chars with
  | nil => exact ⟨none, [], rfl, by simp, by simp⟩
  | cons c rest =>
    by_cases hc : p c
    · exact ⟨some c, rest, rfl, by simpa using hc, nofun⟩
    · exact ⟨none, c :: rest, rfl, by simp, by simpa using hc⟩

/-- What holds of the first characters of two runs holds of the first of both together. -/
theorem head_append {p : Char → Prop} (hrun : ∀ c ∈ run.head?, p c) (hrest : ∀ c ∈ rest.head?, p c) :
    ∀ c ∈ (run ++ rest).head?, p c := by
  cases run with
  | nil => exact hrest
  | cons => exact hrun

theorem ascii_forall {P : Char → Prop} (h : ∀ n < 128, P (Char.ofNat n)) (hc : c.toNat < 128) : P c := by
  rw [← Char.ofNat_toNat c]
  exact h _ hc

theorem toNat_of_le {bound : Char} (h : c.val ≤ bound.val) (hbound : bound.toNat < 128) : c.toNat < 128 :=
  Nat.lt_of_le_of_lt (UInt32.le_iff_toNat_le.mp h) hbound

theorem toNat_of_isDigit (h : c.isDigit = true) : c.toNat < 128 := by
  simp only [Char.isDigit, Bool.and_eq_true, decide_eq_true_eq] at h
  exact toNat_of_le h.2 (by decide)

theorem toNat_of_isWordChar (h : isWordChar c = true) : c.toNat < 128 := by
  simp only [isWordChar, Char.isAlphanum, Bool.or_eq_true, decide_eq_true_eq] at h
  obtain (halpha | hdigit) | rfl := h
  · change (c.isUpper || c.isLower) = true at halpha
    obtain hupper | hlower := Bool.or_eq_true_iff.mp halpha
    · exact toNat_of_le (of_decide_eq_true hupper).2 (by decide)
    · exact toNat_of_le (of_decide_eq_true (Bool.and_eq_true_iff.mp hlower).2) (by decide)
  · exact toNat_of_isDigit hdigit
  · decide

theorem isWordChar_of_isWordStart (h : isWordStart c = true) : isWordChar c = true := by
  simp only [isWordStart, isWordChar, Char.isAlphanum, Bool.or_eq_true] at h ⊢
  exact h.imp .inl id

theorem isDigit_of_isWordStart (h : isWordStart c = true) : c.isDigit = false := by
  have hall : ∀ n < 128, isWordStart (Char.ofNat n) = true → (Char.ofNat n).isDigit = false :=
    by decide +kernel
  exact ascii_forall (P := fun c => isWordStart c = true → c.isDigit = false) hall
    (toNat_of_isWordChar (isWordChar_of_isWordStart h)) h

theorem isWordChar_of_isHexDigit (h : Number.isHexDigit c = true) : isWordChar c = true := by
  have hall : ∀ n < 128, Number.isHexDigit (Char.ofNat n) = true → isWordChar (Char.ofNat n) = true := by
    decide +kernel
  have hc : c.toNat < 128 := by
    simp only [Number.isHexDigit, Bool.or_eq_true, Bool.and_eq_true, decide_eq_true_eq] at h
    obtain (h | h) | h := h
    · exact toNat_of_isDigit h
    · exact toNat_of_le h.2 (by decide)
    · exact toNat_of_le h.2 (by decide)
  exact ascii_forall (P := fun c => Number.isHexDigit c = true → isWordChar c = true) hall hc h

abbrev IsLetter (c : Char) : Prop := c = 'e' ∨ c = 'E'
abbrev IsSign (c : Char) : Prop := c = '+' ∨ c = '-'
abbrev IsMark (c : Char) : Prop := c = 'f' ∨ c = 'F'

structure Exponent where
  letter : Char
  sign : Option Char
  digits : List Char
  letter_eq : IsLetter letter
  sign_eq : ∀ c ∈ sign, IsSign c
  digits_ne : digits ≠ []
  isDigit : ∀ c ∈ digits, c.isDigit = true

def Exponent.chars (e : Exponent) : List Char := e.letter :: (e.sign.toList ++ e.digits)

/-- A decimal: digits, perhaps with a point among them, perhaps an exponent, perhaps a float mark. -/
structure Decimal where
  whole : List Char
  fraction : Option (List Char)
  exponent : Option Exponent
  mark : Option Char
  whole_isDigit : ∀ c ∈ whole, c.isDigit = true
  fraction_isDigit : ∀ run ∈ fraction, ∀ c ∈ run, c.isDigit = true
  digits_ne : whole ++ fraction.getD [] ≠ []
  mark_eq : ∀ c ∈ mark, IsMark c

namespace Decimal

def chars (d : Decimal) : List Char :=
  d.whole ++ d.fraction.elim [] ('.' :: ·) ++ d.exponent.elim [] Exponent.chars ++ d.mark.toList

def text (d : Decimal) : List Char :=
  d.whole ++ d.fraction.elim [] ('.' :: ·) ++ d.exponent.elim [] fun e => 'e' :: e.sign.toList ++ e.digits

def isFloat (d : Decimal) : Bool := d.fraction.isSome || d.exponent.isSome || d.mark.isSome

def toFloat (d : Decimal) : Float :=
  Number.Scanned.toFloat ⟨d.whole, d.fraction.getD [], d.exponent.elim false fun e => e.sign = some '-',
    d.exponent.elim [] Exponent.digits⟩

def Ends (d : Decimal) (after : List Char) : Prop :=
  ∀ c ∈ after.head?, isWordChar c = false ∧ (d.isFloat = false → c ≠ '.')

end Decimal

theorem fractionPart_eq_iff {chars : List Char} :
    fractionPart chars = (fraction, after) ↔
      chars = fraction.elim [] ('.' :: ·) ++ after ∧
        fraction.elim (after.head? ≠ some '.') fun run => Run Char.isDigit run after := by
  fun_cases fractionPart chars with
  | case1 rest =>
    cases fraction with
    | none =>
      constructor
      · intro h
        cases (Prod.mk.inj h).1
      · rintro ⟨hafter, hhead⟩
        obtain rfl : '.' :: rest = after := hafter
        exact absurd rfl hhead
    | some run => simp [span_eq_iff]
  | case2 rest hpoint =>
    cases fraction with
    | none =>
      simp only [Prod.mk.injEq, true_and, Option.elim_none, List.nil_append, iff_self_and]
      rintro rfl hhead
      exact hpoint _ (List.eq_cons_of_mem_head? hhead)
    | some run =>
      simp only [Prod.mk.injEq, reduceCtorEq, false_and, Option.elim_some, List.cons_append,
        false_iff, not_and]
      intro h
      exact absurd h (hpoint _)

theorem exponentPart_none {chars : List Char} (h : ∀ c ∈ chars.head?, ¬ IsLetter c) :
    exponentPart chars = (none, chars) := by
  cases chars with
  | nil => rfl
  | cons c rest =>
    have hc := h c rfl
    simp [exponentPart, hc]

theorem exponentPart_letter {letter : Char} (hletter : IsLetter letter) {sign : Option Char}
    (h : Lead IsSign sign rest) :
    exponentPart (letter :: (sign.toList ++ rest)) =
      (some (sign.toList, rest.takeWhile Char.isDigit), rest.dropWhile Char.isDigit) := by
  cases sign with
  | none =>
    rw [exponentPart, if_pos (by simpa using hletter)]
    · rfl
    · rintro r hr
      exact h.2 rfl '+' (by simp_all) (.inl rfl)
    · rintro r hr
      exact h.2 rfl '-' (by simp_all) (.inr rfl)
  | some c =>
    obtain rfl | rfl := h.1 c rfl <;> simp [exponentPart, hletter]

theorem exponentPart_chars {exponent : Option Exponent}
    (h : ∀ c ∈ after.head?, c.isDigit = false ∧ ¬ IsLetter c) :
    exponentPart (exponent.elim [] Exponent.chars ++ after) =
      (exponent.map fun e => (e.sign.toList, e.digits), after) := by
  cases exponent with
  | none => exact exponentPart_none fun c hc => (h c hc).2
  | some e =>
    obtain ⟨htake, hdrop⟩ := span_eq_iff.mpr ⟨rfl, e.isDigit, fun c hc => (h c hc).1⟩
    have hlead : Lead IsSign e.sign (e.digits ++ after) := by
      refine ⟨e.sign_eq, fun _ c hc hsign => ?_⟩
      obtain ⟨digit, digits, hdigits⟩ := List.exists_cons_of_ne_nil e.digits_ne
      obtain rfl : digit = c := by simpa [hdigits] using hc
      have hdigit := e.isDigit digit (by simp [hdigits])
      obtain rfl | rfl := hsign <;> exact absurd hdigit (by decide)
    simp only [Option.elim_some, Exponent.chars, List.cons_append, List.append_assoc,
      exponentPart_letter e.letter_eq hlead, htake, hdrop, Option.map_some]

theorem exists_exponent {chars : List Char} {exponent : Option (List Char × List Char)}
    (h : exponentPart chars = (exponent, after)) (hdigits : ∀ parts ∈ exponent, parts.2 ≠ []) :
    ∃ e : Option Exponent, exponent = e.map (fun e => (e.sign.toList, e.digits)) ∧
      chars = e.elim [] Exponent.chars ++ after := by
  obtain ⟨letter, tail, rfl, hletter, hnone⟩ := exists_lead IsLetter chars
  cases letter with
  | none =>
    rw [Option.toList_none, List.nil_append, exponentPart_none (hnone rfl), Prod.mk.injEq] at h
    obtain ⟨rfl, rfl⟩ := h
    exact ⟨none, rfl, rfl⟩
  | some letter =>
    obtain ⟨sign, rest, rfl, hlead⟩ := exists_lead IsSign tail
    rw [Option.toList_some, List.singleton_append, exponentPart_letter (hletter letter rfl) hlead,
      Prod.mk.injEq] at h
    obtain ⟨rfl, hdrop⟩ := h
    obtain ⟨hrest, hisDigit, -⟩ := span_eq_iff.mp ⟨rfl, hdrop⟩
    refine ⟨some ⟨letter, sign, _, hletter letter rfl, hlead.1, hdigits _ rfl, hisDigit⟩, rfl, ?_⟩
    simp [Exponent.chars, ← hrest]

theorem floatMark_eq {mark : Option Char} (h : Lead IsMark mark after) :
    floatMark (mark.toList ++ after) = (mark.isSome, after) := by
  cases mark with
  | none =>
    cases after with
    | nil => rfl
    | cons c after =>
      have hc := h.2 rfl c rfl
      simp [floatMark, hc]
  | some c => simp [floatMark, h.1 c rfl]

theorem endNumber_ok_iff {text : List Char} :
    endNumber line text rest = .ok () ↔ ∀ c ∈ rest.head?, isWordChar c = false := by
  cases rest with
  | nil => simp [endNumber]
  | cons c rest => cases h : isWordChar c <;> simp [endNumber, h]

/-- A character that ends a word carries on no part of a number. -/
theorem ends_part (h : isWordChar c = false) : c.isDigit = false ∧ ¬ IsLetter c ∧ ¬ IsMark c := by
  refine ⟨?_, ?_, ?_⟩
  · simp only [isWordChar, Char.isAlphanum, Bool.or_eq_false_iff] at h
    exact h.1.2
  · rintro (rfl | rfl) <;> exact absurd h (by decide)
  · rintro (rfl | rfl) <;> exact absurd h (by decide)

namespace Decimal

variable {d : Decimal} {after : List Char}

def kind (d : Decimal) : TokenKind :=
  if d.isFloat then .float d.toFloat else .integer (literalBits (Number.ofDigits 10 d.whole))

theorem length_chars (d : Decimal) : d.chars.length = d.text.length + if d.mark.isSome then 1 else 0 := by
  cases hexponent : d.exponent <;> cases hmark : d.mark <;>
    simp [text, chars, hexponent, hmark, Exponent.chars] <;> omega

def fromExponent (d : Decimal) (after : List Char) : List Char :=
  d.exponent.elim [] Exponent.chars ++ (d.mark.toList ++ after)

theorem head_mark (h : d.Ends after) :
    ∀ c ∈ (d.mark.toList ++ after).head?, c.isDigit = false ∧ ¬ IsLetter c := by
  refine head_append (fun c hc => ?_) fun c hc => ?_
  · obtain rfl | rfl := d.mark_eq c (by simpa using hc) <;> decide
  · have hends := ends_part (h c hc).1
    exact ⟨hends.1, hends.2.1⟩

theorem head_fromExponent {c : Char} (hc : c ∈ (d.fromExponent after).head?) :
    IsLetter c ∨ IsMark c ∨ d.exponent = none ∧ d.mark = none ∧ c ∈ after.head? := by
  rw [fromExponent] at hc
  cases hexponent : d.exponent with
  | some e =>
    obtain rfl : e.letter = c := by simpa [hexponent, Exponent.chars] using hc
    exact .inl e.letter_eq
  | none =>
    cases hmark : d.mark with
    | some mark =>
      obtain rfl : mark = c := by simpa [hexponent, hmark] using hc
      exact .inr (.inl (d.mark_eq mark hmark))
    | none => exact .inr (.inr ⟨rfl, rfl, by simpa [hexponent, hmark] using hc⟩)

/-- What follows the digits of a decimal is no digit, no second point and not the mark of a hexadecimal. -/
theorem stop_fromExponent (h : d.Ends after) {c : Char} (hc : c ∈ (d.fromExponent after).head?) :
    c.isDigit = false ∧ (d.fraction = none → c ≠ '.') ∧ c ≠ 'x' ∧ c ≠ 'X' := by
  obtain (rfl | rfl) | (rfl | rfl) | ⟨hexponent, hmark, hafter⟩ := head_fromExponent hc
  · simp
  · simp
  · simp
  · simp
  · obtain ⟨hword, hpoint⟩ := h c hafter
    refine ⟨(ends_part hword).1, fun hfraction =>
      hpoint (by simp [isFloat, hfraction, hexponent, hmark]), ?_, ?_⟩
    · rintro rfl
      exact absurd hword (by decide)
    · rintro rfl
      exact absurd hword (by decide)

theorem fractionPart_read (h : d.Ends after) :
    fractionPart (d.fraction.elim [] ('.' :: ·) ++ d.fromExponent after) = (d.fraction,
      d.fromExponent after) := by
  refine fractionPart_eq_iff.mpr ⟨rfl, ?_⟩
  cases hfraction : d.fraction with
  | none => exact fun hc => (stop_fromExponent h hc).2.1 hfraction rfl
  | some run => exact ⟨d.fraction_isDigit run hfraction, fun c hc => (stop_fromExponent h hc).1⟩

theorem span_read (h : d.Ends after) :
    (d.chars ++ after).takeWhile Char.isDigit = d.whole ∧
      (d.chars ++ after).dropWhile Char.isDigit = d.fraction.elim [] ('.' :: ·) ++ d.fromExponent after := by
  refine span_eq_iff.mpr ⟨by simp [chars, fromExponent], d.whole_isDigit,
    head_append (fun c hc => ?_) fun c hc => ?_⟩
  · cases hfraction : d.fraction with
    | none => simp [hfraction] at hc
    | some run =>
      obtain rfl : '.' = c := by simpa [hfraction] using hc
      decide
  · exact (stop_fromExponent h hc).1

/-- A decimal is read where it stands, part by part. -/
theorem read (d : Decimal) (h : d.Ends after) (line : Nat) :
    decimalNumber line (d.chars ++ after) = .ok ⟨d.kind, String.ofList d.text, d.chars.length - 1⟩ := by
  have hend (text : List Char) : endNumber line text after = .ok () :=
    endNumber_ok_iff.mpr fun c hc => (h c hc).1
  have hmark : Lead IsMark d.mark after := ⟨d.mark_eq, fun _ c hc => (ends_part (h c hc).1).2.2⟩
  rw [decimalNumber, (span_read h).1, (span_read h).2, fractionPart_read h, fromExponent, length_chars]
  simp only [exponentPart_chars (head_mark h), floatMark_eq hmark, hend]
  cases hexponent : d.exponent with
  | none => simp [text, kind, isFloat, toFloat, hexponent, bind, Except.bind]
  | some e =>
    simp [text, kind, isFloat, toFloat, hexponent, e.digits_ne, bind, Except.bind,
      Option.toList_eq_singleton_iff]

end Decimal

/-- Where a number starts there are digits, behind a point at most. -/
theorem digits_of_startsNumber {afterFraction : List Char} (hstart : startsNumber c rest = true)
    (hfraction : fractionPart ((c :: rest).dropWhile Char.isDigit) = (fraction, afterFraction)) :
    (c :: rest).takeWhile Char.isDigit ++ fraction.getD [] ≠ [] := by
  simp only [startsNumber, Bool.or_eq_true, Bool.and_eq_true, decide_eq_true_eq] at hstart
  obtain hc | ⟨rfl, hpoint⟩ := hstart
  · simp [hc]
  · have hdot : '.'.isDigit = false := by decide
    rw [List.dropWhile_cons_of_neg (by simp [hdot])] at hfraction
    simp only [fractionPart, Prod.mk.injEq] at hfraction
    obtain ⟨rfl, -⟩ := hfraction
    cases rest with
    | nil => simp at hpoint
    | cons digit rest =>
      have hdigit : digit.isDigit = true := by simpa using hpoint
      simp [hdigit]

/-- What is read as a decimal is one. -/
theorem exists_decimal (h : decimalNumber line (c :: rest) = .ok found)
    (hstart : startsNumber c rest = true) :
    ∃ (d : Decimal) (after : List Char), c :: rest = d.chars ++ after ∧ d.Ends after := by
  generalize hfraction : fractionPart ((c :: rest).dropWhile Char.isDigit) = parts
  obtain ⟨fraction, afterFraction⟩ := parts
  generalize hexponent : exponentPart afterFraction = parts
  obtain ⟨exponent, afterExponent⟩ := parts
  obtain ⟨mark, after, rfl, hmark⟩ := exists_lead IsMark afterExponent
  have hne := digits_of_startsNumber hstart hfraction
  -- An exponent without digits is refused, so the parts found are those of a decimal.
  simp only [decimalNumber, hfraction, hexponent, floatMark_eq hmark] at h
  split at h
  · cases h
  · rename_i hempty
    obtain ⟨⟨⟩, hend, -⟩ := bind_ok.mp h
    have hdigits : ∀ parts ∈ exponent, parts.2 ≠ [] := by
      rintro parts hparts
      rw [Option.mem_def.mp hparts] at hempty
      simpa using hempty
    obtain ⟨e, rfl, rfl⟩ := exists_exponent hexponent hdigits
    obtain ⟨hrest, hends⟩ := fractionPart_eq_iff.mp hfraction
    obtain ⟨hchars, hwhole, -⟩ := span_eq_iff.mp ⟨rfl, hrest⟩
    have hfractionDigit : ∀ run ∈ fraction, ∀ c ∈ run, c.isDigit = true := by
      rintro run hrun
      rw [Option.mem_def.mp hrun] at hends
      exact hends.1
    refine ⟨⟨_, fraction, e, mark, hwhole, hfractionDigit, hne, hmark.1⟩, after, ?_, fun c hc => ?_⟩
    · exact hchars.trans (by simp [Decimal.chars])
    · refine ⟨endNumber_ok_iff.mp hend c hc, fun hfloat => ?_⟩
      simp only [Decimal.isFloat, Bool.or_eq_false_iff, Option.isSome_eq_false_iff,
        Option.isNone_iff_eq_none] at hfloat
      obtain ⟨⟨rfl, rfl⟩, rfl⟩ := hfloat
      -- Nothing stands between the digits and what follows, and a point would have been a fraction.
      rintro rfl
      exact hends hc

theorem hexNumber_ok_iff {chars : List Char} :
    hexNumber line chars = .ok found ↔
      ∃ run after, chars = run ++ after ∧ run ≠ [] ∧ (∀ c ∈ run, Number.isHexDigit c = true) ∧
        (∀ c ∈ after.head?, isWordChar c = false) ∧
        found = ⟨.integer (literalBits (Number.ofDigits 16 run)), String.ofList ('0' :: 'x' :: run),
          run.length + 1⟩ := by
  constructor
  · intro h
    rw [hexNumber] at h
    obtain ⟨⟨⟩, hend, h⟩ := bind_ok.mp h
    split at h
    · cases h
    · rename_i hne
      obtain ⟨hchars, hrun, -⟩ := span_eq_iff.mp ⟨rfl, rfl⟩
      exact ⟨_, _, hchars, by simpa using hne, hrun, endNumber_ok_iff.mp hend, (Except.ok.inj h).symm⟩
  · rintro ⟨run, after, rfl, hne, hrun, hafter, rfl⟩
    have hstop : ∀ c ∈ after.head?, Number.isHexDigit c = false := fun c hc => by
      have := mt isWordChar_of_isHexDigit (by simpa using hafter c hc)
      simpa using this
    obtain ⟨htake, hdrop⟩ := span_eq_iff.mpr ⟨rfl, hrun, hstop⟩
    simp [hexNumber, htake, hdrop, endNumber_ok_iff.mpr hafter, hne, bind, Except.bind]

theorem number_hex {mark : Char} (hmark : mark = 'x' ∨ mark = 'X') (line : Nat) (rest : List Char) :
    number line ('0' :: mark :: rest) = hexNumber line rest := by
  obtain rfl | rfl := hmark <;> rfl

theorem number_decimal {chars : List Char}
    (h : ∀ mark rest, chars = '0' :: mark :: rest → ¬(mark = 'x' ∨ mark = 'X')) (line : Nat) :
    number line chars = decimalNumber line chars := by
  fun_cases number line chars with
  | case1 rest => exact absurd (.inl rfl) (h _ _ rfl)
  | case2 rest => exact absurd (.inr rfl) (h _ _ rfl)
  | case3 => rfl

namespace Decimal

theorem number_read (d : Decimal) {after : List Char} (h : d.Ends after) (line : Nat) :
    number line (d.chars ++ after) = .ok ⟨d.kind, String.ofList d.text, d.chars.length - 1⟩ := by
  rw [number_decimal, d.read h]
  intro mark rest hchars hmark
  have hdigit : mark.isDigit = false := by obtain rfl | rfl := hmark <;> decide
  have hdrop := (span_read h).2
  rw [hchars, List.dropWhile_cons_of_pos (by decide), List.dropWhile_cons_of_neg (by simp [hdigit])] at hdrop
  cases hfraction : d.fraction with
  | some run =>
    rw [hfraction] at hdrop
    obtain rfl : mark = '.' := (List.cons.inj hdrop).1
    obtain h | h := hmark <;> cases h
  | none =>
    rw [hfraction] at hdrop
    have hhead : mark ∈ (d.fromExponent after).head? := by
      rw [show d.fromExponent after = mark :: rest from hdrop.symm, List.head?_cons, Option.mem_some]
    have hstop := (stop_fromExponent h hhead).2.2
    exact hmark.elim hstop.1 hstop.2

theorem starts (d : Decimal) (after : List Char) :
    ∃ c tail, d.chars = c :: tail ∧ startsNumber c (tail ++ after) = true := by
  cases hwhole : d.whole with
  | cons c whole =>
    have hc := d.whole_isDigit c (by simp [hwhole])
    exact ⟨c, _, by rw [chars, hwhole]; rfl, by simp [startsNumber, hc]⟩
  | nil =>
    have hne := d.digits_ne
    rw [hwhole, List.nil_append] at hne
    cases hfraction : d.fraction with
    | none => simp [hfraction] at hne
    | some run =>
      obtain ⟨digit, digits, rfl⟩ := List.exists_cons_of_ne_nil (by simpa [hfraction] using hne)
      have hdigit := d.fraction_isDigit _ hfraction digit (by simp)
      exact ⟨'.', _, by rw [chars, hwhole, hfraction]; rfl, by simp [startsNumber, hdigit]⟩

end Decimal

end WorldScript.Scan
