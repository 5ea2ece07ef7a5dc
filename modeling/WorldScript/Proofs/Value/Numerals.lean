import WorldScript.Proofs.Json.Reading
import WorldScript.Value.Cast

/-! # Integers as text

An integer is read from a text in two places: a cast takes the number at the start of a string, and the
scanner takes a literal.  Each has its own way with numbers that are too large, but below `2 ^ 32` the
two agree on every numeral. The text of an integer is such a numeral, perhaps with a minus before it.
-/

namespace WorldScript.Reading

variable {gap run after : List Char} {c : Char} {n : Nat}

open Scan (runValue)

/-- Decimal digits, or hexadecimal digits of either case after their mark, with the number they stand for. -/
inductive Numeral : Nat → List Char → Prop
  | decimal {run : List Char} (hne : run ≠ []) (hrun : ∀ c ∈ run, c.isDigit = true) :
    Numeral (runValue 10 run) run
  | hex {mark : Char} {run : List Char} (hmark : mark = 'x' ∨ mark = 'X') (hne : run ≠ [])
    (hrun : ∀ c ∈ run, Number.isHexDigit c = true) : Numeral (runValue 16 run) ('0' :: mark :: run)

def Extends (numeral : List Char) (c : Char) : Prop := ∃ n more, Numeral n (numeral ++ c :: more)

theorem skipGap_append {text : List Char} (hgap : ∀ c ∈ gap, isGap c = true)
    (htext : ∀ c ∈ text.head?, isGap c = false) : skipGap (gap ++ text) = text :=
  (Scan.span_eq_iff.mpr ⟨rfl, hgap, htext⟩).2

theorem isGap_of_isDigit (h : c.isDigit = true) : isGap c = false := by
  have hall : ∀ n < 128, (Char.ofNat n).isDigit = true → isGap (Char.ofNat n) = false := by decide +kernel
  exact Scan.ascii_forall (P := fun c => c.isDigit = true → isGap c = false) hall (Scan.toNat_of_isDigit h) h

theorem toLower_eq_mark : (c.toLower = '0' ↔ c = '0') ∧ (c.toLower = 'x' ↔ c = 'x' ∨ c = 'X') := by
  by_cases hc : c.toNat < 128
  · have hall : ∀ n < 128, ((Char.ofNat n).toLower = '0' ↔ Char.ofNat n = '0') ∧
        ((Char.ofNat n).toLower = 'x' ↔ Char.ofNat n = 'x' ∨ Char.ofNat n = 'X') := by decide +kernel
    exact Scan.ascii_forall (P := fun c => (c.toLower = '0' ↔ c = '0') ∧
      (c.toLower = 'x' ↔ c = 'x' ∨ c = 'X')) hall hc
  · rw [Scan.toLower_of_not_ascii hc]
    refine ⟨.rfl, .inl, ?_⟩
    rintro (rfl | rfl)
    · rfl
    · exact absurd (by decide) hc

theorem startsWith_hex_iff {text : List Char} :
    startsWith ['0', 'x'] text = true ↔ ∃ mark rest, (mark = 'x' ∨ mark = 'X') ∧
      text = '0' :: mark :: rest := by
  rcases text with _ | ⟨c, _ | ⟨d, rest⟩⟩
  · simp [startsWith]
  · simp [startsWith]
  · simp [startsWith, toLower_eq_mark, and_comm]

theorem hexInteger?_eq_none (h : c ≠ '0') (rest : List Char) : hexInteger? (c :: rest) = none := by
  rw [hexInteger?, if_neg]
  rw [startsWith_hex_iff]
  rintro ⟨mark, more, -, htext⟩
  exact h (List.cons.inj htext).1

theorem hexInteger?_eq {mark : Char} (hmark : mark = 'x' ∨ mark = 'X') (hne : run ≠ [])
    (hrun : Scan.Run Number.isHexDigit run after) :
    hexInteger? ('0' :: mark :: (run ++ after)) = some (wrap32 (runValue 16 run)) := by
  have hstart := startsWith_hex_iff.mpr ⟨mark, run ++ after, hmark, rfl⟩
  have hspan := (Scan.span_eq_iff.mpr ⟨rfl, hrun⟩).1
  rw [hexInteger?, if_pos hstart, List.drop_succ_cons, List.drop_succ_cons, List.drop_zero, hspan,
    if_neg (by simpa using hne), Scan.ofDigits_eq_runValue]

theorem decimalInteger?_unsigned (hne : run ≠ []) (hrun : Scan.Run Char.isDigit run after) :
    decimalInteger? (run ++ after) = some (clamp64 (runValue 10 run)) := by
  have hspan := (Scan.span_eq_iff.mpr ⟨rfl, hrun⟩).1
  have hsign (sign : Char) (hdigit : sign.isDigit = false) (rest : List Char) :
      run ++ after ≠ sign :: rest := by
    intro h
    obtain ⟨c, tail, rfl⟩ := List.exists_cons_of_ne_nil hne
    obtain ⟨rfl, -⟩ := List.cons.inj h
    have hc := hrun.1 c List.mem_cons_self
    simp [hdigit] at hc
  simp [decimalInteger?, hsign '-' rfl, hsign '+' rfl, hspan, hne, Scan.ofDigits_eq_runValue]

theorem decimalInteger?_negative (hne : run ≠ []) (hrun : Scan.Run Char.isDigit run after) :
    decimalInteger? ('-' :: (run ++ after)) = some (clamp64 (-(runValue 10 run : Int))) := by
  have hspan := (Scan.span_eq_iff.mpr ⟨rfl, hrun⟩).1
  simp [decimalInteger?, hspan, hne, Scan.ofDigits_eq_runValue]

theorem integer?_eq (text : String) :
    integer? text = (hexInteger? (skipGap text.toList)).orElse fun _ =>
      decimalInteger? (skipGap text.toList) := rfl

theorem Extends.digit (hrun : ∀ c ∈ run, c.isDigit = true) (hc : c.isDigit = true) : Extends run c :=
  ⟨_, [], .decimal (by simp) (List.forall_mem_append.mpr ⟨hrun, List.forall_mem_singleton.mpr hc⟩)⟩

theorem Extends.hexDigit {mark : Char} (hmark : mark = 'x' ∨ mark = 'X')
    (hrun : ∀ c ∈ run, Number.isHexDigit c = true) (hc : Number.isHexDigit c = true) :
    Extends ('0' :: mark :: run) c :=
  ⟨_, [], .hex hmark (by simp) (List.forall_mem_append.mpr ⟨hrun, List.forall_mem_singleton.mpr hc⟩)⟩

theorem Extends.mark {mark : Char} (hmark : mark = 'x' ∨ mark = 'X') : Extends ['0'] mark :=
  ⟨_, ['0'], .hex hmark (by simp) (List.forall_mem_singleton.mpr rfl)⟩

/-- Only digits and marks carry a numeral on. -/
theorem Extends.char {numeral : List Char} (h : Extends numeral c) :
    Number.isHexDigit c = true ∨ c = 'x' ∨ c = 'X' := by
  obtain ⟨n, more, h⟩ := h
  have hmem : c ∈ numeral ++ c :: more := by simp
  generalize numeral ++ c :: more = chars at h hmem
  cases h with
  | decimal _ hrun => exact .inl (by simp [Number.isHexDigit, hrun c hmem])
  | hex hmark _ hrun =>
    obtain rfl | hmem := List.mem_cons.mp hmem
    · exact .inl (by decide)
    · obtain rfl | hmem := List.mem_cons.mp hmem
      · exact .inr hmark
      · exact .inl (hrun c hmem)

/-- A decimal that cannot go on does not start a hexadecimal. -/
theorem hexInteger?_decimal (hne : run ≠ []) (hrun : ∀ c ∈ run, c.isDigit = true)
    (hafter : ∀ c ∈ after.head?, ¬ Extends run c) : hexInteger? (run ++ after) = none := by
  rw [hexInteger?, if_neg]
  intro hstart
  obtain ⟨mark, rest, hmark, htext⟩ := startsWith_hex_iff.mp hstart
  have hdigit : mark.isDigit = false := by obtain rfl | rfl := hmark <;> decide
  rcases run with _ | ⟨c, _ | ⟨d, tail⟩⟩
  · exact hne rfl
  · -- The numeral is a zero, and the mark would carry it on.
    obtain ⟨rfl, rfl⟩ := List.cons.inj htext
    exact hafter mark rfl (.mark hmark)
  · obtain ⟨-, htail⟩ := List.cons.inj htext
    obtain ⟨rfl, -⟩ := List.cons.inj htail
    simpa [hdigit] using hrun d (by simp)

theorem integer?_decimal (hgap : ∀ c ∈ gap, isGap c = true) (hne : run ≠ [])
    (hrun : ∀ c ∈ run, c.isDigit = true) (hafter : ∀ c ∈ after.head?, ¬ Extends run c) :
    integer? (String.ofList (gap ++ (run ++ after))) = some (clamp64 (runValue 10 run)) := by
  have hskip : skipGap (gap ++ (run ++ after)) = run ++ after := by
    refine skipGap_append hgap fun c hc => ?_
    obtain ⟨first, tail, rfl⟩ := List.exists_cons_of_ne_nil hne
    obtain rfl := Option.some.inj hc
    exact isGap_of_isDigit (hrun first List.mem_cons_self)
  have hends : Scan.Run Char.isDigit run after :=
    ⟨hrun, fun c hc => Bool.eq_false_iff.mpr fun h => hafter c hc (.digit hrun h)⟩
  rw [integer?_eq, String.toList_ofList, hskip, hexInteger?_decimal hne hrun hafter, Option.orElse_none,
    decimalInteger?_unsigned hne hends]

theorem integer?_hex {mark : Char} (hgap : ∀ c ∈ gap, isGap c = true) (hmark : mark = 'x' ∨ mark = 'X')
    (hne : run ≠ []) (hrun : ∀ c ∈ run, Number.isHexDigit c = true)
    (hafter : ∀ c ∈ after.head?, ¬ Extends ('0' :: mark :: run) c) :
    integer? (String.ofList (gap ++ ('0' :: mark :: run ++ after))) = some (wrap32 (runValue 16 run)) := by
  have hskip : skipGap (gap ++ ('0' :: mark :: run ++ after)) = '0' :: mark :: (run ++ after) :=
    skipGap_append hgap (by simp [isGap])
  have hends : Scan.Run Number.isHexDigit run after :=
    ⟨hrun, fun c hc => Bool.eq_false_iff.mpr fun h => hafter c hc (.hexDigit hmark hrun h)⟩
  rw [integer?_eq, String.toList_ofList, hskip, hexInteger?_eq hmark hne hends, Option.orElse_some]

theorem clamp64_eq {n : Int} (hmin : Int64.minValue.toInt ≤ n) (hmax : n ≤ Int64.maxValue.toInt) :
    clamp64 n = n := by
  rw [clamp64, min_eq_left hmax, max_eq_right hmin]

/-- A literal below `2 ^ 32` is within its bits. -/
theorem literalBits_eq (h : n < 2 ^ 32) : Scan.literalBits n = Int32.ofNat n := by
  rw [Scan.literalBits, UInt32.size, Nat.min_eq_left (by omega)]

theorem ofInt_clamp64 (h : n < 2 ^ 32) : Int32.ofInt (clamp64 n) = Scan.literalBits n := by
  have hmin : Int64.minValue.toInt ≤ 0 := by decide
  have hmax : (2 ^ 32 : Int) ≤ Int64.maxValue.toInt := by decide
  rw [clamp64_eq (by omega) (by omega), Int32.ofInt_eq_ofNat, literalBits_eq h]

theorem ofInt_wrap32 (h : n < 2 ^ 32) : Int32.ofInt (wrap32 n) = Scan.literalBits n := by
  rw [literalBits_eq h, ← Int32.toInt_inj, Int32.toInt_ofInt, Int32.toInt_ofNat', wrap32]
  exact Int.bmod_bmod

namespace Numeral

variable {n : Nat} {numeral : List Char}

/-- A number below `2 ^ 32` is read with the bits of the literal, however it is written. -/
theorem integer? (h : Numeral n numeral) (hn : n < 2 ^ 32) {gap after : List Char}
    (hgap : ∀ c ∈ gap, isGap c = true) (hafter : ∀ c ∈ after.head?, ¬ Extends numeral c) :
    ∃ m, Reading.integer? (String.ofList (gap ++ (numeral ++ after))) = some m ∧
      Int32.ofInt m = Scan.literalBits n := by
  cases h with
  | decimal hne hrun => exact ⟨_, integer?_decimal hgap hne hrun hafter, ofInt_clamp64 hn⟩
  | hex hmark hne hrun => exact ⟨_, integer?_hex hgap hmark hne hrun hafter, ofInt_wrap32 hn⟩

theorem spells (h : Numeral n numeral) :
    ∃ text, Scan.Spells (.integer (Scan.literalBits n)) text numeral := by
  cases h with
  | decimal hne hrun => exact ⟨_, .decimal hne hrun (Scan.isLiteral_iff.mpr rfl)⟩
  | hex hmark hne hrun => exact ⟨_, .hex hmark hne hrun (Scan.isLiteral_iff.mpr rfl)⟩

theorem exists_digit (h : Numeral n numeral) : ∃ c tail, numeral = c :: tail ∧ c.isDigit = true := by
  cases h with
  | decimal hne hrun =>
    obtain ⟨c, tail, rfl⟩ := List.exists_cons_of_ne_nil hne
    exact ⟨c, tail, rfl, hrun c List.mem_cons_self⟩
  | hex => exact ⟨'0', _, rfl, rfl⟩

/-- A numeral alone is scanned as one literal. -/
theorem tokenize (h : Numeral n numeral) :
    ∃ t, WorldScript.tokenize [] (String.ofList numeral) = .ok [t] ∧
      t.kind = .integer (Scan.literalBits n) := by
  obtain ⟨text, hspells⟩ := h.spells
  have hsolid : Scan.startsSolid (numeral ++ ['\n']) = true := by
    obtain ⟨c, tail, rfl, hc⟩ := h.exists_digit
    refine Scan.startsSolid_cons.mpr ⟨Scan.isBlank_of_isWordChar ?_, ?_⟩
    · simp [Scan.isWordChar, Char.isAlphanum, hc]
    · rintro rfl
      exact absurd hc (by decide)
  have hcut : Scan.Cut [] ([] ++ (numeral ++ ['\n'])) [⟨.integer (Scan.literalBits n), text, 1⟩] :=
    .token .nil hsolid hspells (by simp [Scan.Munched, Scan.isWordChar]) rfl (.done (.blank (by decide) .nil))
  refine ⟨⟨.integer (Scan.literalBits n), text, 1⟩, ?_, rfl⟩
  rw [tokenize_eq_ok_iff (by simp), stream_nil, String.toList_ofList]
  exact hcut

end Numeral

/-- An integer is read back from its text. -/
theorem integer?_toString {n : Int} (hmin : Int64.minValue.toInt ≤ n) (hmax : n ≤ Int64.maxValue.toInt) :
    integer? (toString n) = some n := by
  have hne : Nat.toDigits 10 n.natAbs ≠ [] := Nat.toDigits_ne_nil
  have hdigits : ∀ c ∈ Nat.toDigits 10 n.natAbs, c.isDigit = true := fun c hc =>
    Nat.isDigit_of_mem_toDigits (by decide) (by decide) hc
  have hvalue : runValue 10 (Nat.toDigits 10 n.natAbs) = n.natAbs :=
    Scan.runValue_toDigits (by decide) (by decide) n.natAbs
  have htext := Document.toList_toString n
  by_cases hneg : n < 0
  · have hrun : Scan.Run Char.isDigit (Nat.toDigits 10 n.natAbs) [] := ⟨hdigits, by simp⟩
    have hread := decimalInteger?_negative hne hrun
    rw [hvalue, show -(n.natAbs : Int) = n by omega, clamp64_eq hmin hmax, List.append_nil] at hread
    have hskip : skipGap ('-' :: Nat.toDigits 10 n.natAbs) = '-' :: Nat.toDigits 10 n.natAbs :=
      List.dropWhile_cons_of_neg (by decide)
    rw [if_pos hneg, List.singleton_append] at htext
    rw [integer?_eq, htext, hskip, hexInteger?_eq_none (by decide), Option.orElse_none, hread]
  · have hread : integer? (String.ofList ([] ++ (Nat.toDigits 10 n.natAbs ++ []))) = _ :=
      integer?_decimal (by simp) hne hdigits (by simp)
    rw [hvalue, show (n.natAbs : Int) = n by omega, clamp64_eq hmin hmax, List.append_nil,
      List.nil_append] at hread
    rw [if_neg hneg, List.nil_append] at htext
    rwa [← htext, String.ofList_toList] at hread

/-- A blank of another kind hides the number after it. -/
theorem integer?_blank (hgap : ∀ c ∈ gap, isGap c = true) (hblank : Text.isBlank c = true)
    (hc : isGap c = false) (rest : List Char) : integer? (String.ofList (gap ++ c :: rest)) = none := by
  have hne {other : Char} (hother : Text.isBlank other = false) : c ≠ other := by
    rintro rfl
    simp [hother] at hblank
  have hdigit : c.isDigit = false := by
    have hword := Scan.isWordChar_of_isBlank hblank
    simp only [Scan.isWordChar, Char.isAlphanum, Bool.or_eq_false_iff] at hword
    exact hword.1.2
  have hdecimal : decimalInteger? (c :: rest) = none := by
    have hminus : c ≠ '-' := hne (by decide)
    have hplus : c ≠ '+' := hne (by decide)
    simp [decimalInteger?, hminus, hplus, hdigit]
  rw [integer?_eq, String.toList_ofList, skipGap_append hgap (by simpa using hc),
    hexInteger?_eq_none (hne (by decide)), Option.orElse_none, hdecimal]

end WorldScript.Reading

namespace WorldScript.Value

open Reading (Numeral Extends)

theorem cast_integer_string (s : String) :
    cast .integer (.string s) = .ok (.integer (Int32.ofInt ((Reading.integer? s).getD 0))) := rfl

theorem cast_long_string (s : String) :
    cast .long (.string s) = .ok (.long (Int64.ofInt ((Reading.integer? s).getD 0))) := rfl

theorem cast_text_integer (i : Int32) :
    cast .integer (.string (Value.integer i).text) = .ok (.integer i) := by
  have hmin : Int64.minValue.toInt ≤ Int32.minValue.toInt := by decide
  have hmax : Int32.maxValue.toInt ≤ Int64.maxValue.toInt := by decide
  rw [cast_integer_string, Value.text,
    Reading.integer?_toString (hmin.trans i.minValue_le_toInt) (i.toInt_le.trans hmax), Option.getD_some,
    Int32.ofInt_toInt]

theorem cast_text_long (l : Int64) : cast .long (.string (Value.long l).text) = .ok (.long l) := by
  rw [cast_long_string, Value.text, Reading.integer?_toString l.minValue_le_toInt l.toInt_le,
    Option.getD_some,
    Int64.ofInt_toInt]

def gapChars : List Char := [' ', '\t', '\r', '\n']

theorem isGap_iff {c : Char} : Reading.isGap c = true ↔ c ∈ gapChars := by
  simp [Reading.isGap, gapChars, or_assoc]

/-- Integers come back from their texts, and a cast makes of a numeral below `2 ^ 32` what the scanner
makes of the literal, whatever follows that cannot carry it on and whatever spaces, tabs and line ends
stand before it.  Any other blank before it makes the cast give zero. -/
theorem casts_agree_with_literals :
    (∀ i : Int32, ∃ text, cast .string (.integer i) = .ok (.string text) ∧
      cast .integer (.string text) = .ok (.integer i)) ∧
    (∀ l : Int64, ∃ text, cast .string (.long l) = .ok (.string text) ∧
      cast .long (.string text) = .ok (.long l)) ∧
    (∀ (n : Nat) (numeral gap after : List Char), Numeral n numeral → n < 2 ^ 32 → (∀ c ∈ gap, c ∈ gapChars) →
      (∀ c ∈ after.head?, ¬ Extends numeral c) →
      ∃ (i : Int32) (t : Token), i.toUInt32.toNat = n ∧ tokenize [] (String.ofList numeral) = .ok [t] ∧
        t.kind = .integer i ∧
        cast .integer (.string (String.ofList (gap ++ (numeral ++ after)))) = .ok (.integer i)) ∧
    ∀ (gap rest : List Char) (c : Char), (∀ c ∈ gap, c ∈ gapChars) → Text.isBlank c = true → c ∉ gapChars →
      cast .integer (.string (String.ofList (gap ++ c :: rest))) = .ok (.integer 0) := by
  refine ⟨fun i => ⟨_, rfl, cast_text_integer i⟩, fun l => ⟨_, rfl, cast_text_long l⟩, ?_, ?_⟩
  · intro n numeral gap after hnumeral hn hgap hafter
    obtain ⟨t, htokens, hkind⟩ := hnumeral.tokenize
    obtain ⟨m, hread, hm⟩ := hnumeral.integer? hn (fun c hc => isGap_iff.mpr (hgap c hc)) hafter
    refine ⟨Scan.literalBits n, t, ?_, htokens, hkind, ?_⟩
    · have hbits : (Scan.literalBits n).toUInt32.toNat = min n (2 ^ 32 - 1) := Scan.isLiteral_iff.mpr rfl
      omega
    · rw [cast_integer_string, hread, Option.getD_some, hm]
  · intro gap rest c hgap hblank hc
    have hnot : Reading.isGap c = false := Bool.eq_false_iff.mpr fun h => hc (isGap_iff.mp h)
    rw [cast_integer_string, Reading.integer?_blank (fun c hc => isGap_iff.mpr (hgap c hc)) hblank hnot]
    rfl

/-- A form feed is a blank, but a cast does not pass over it. -/
theorem formFeed_not_skipped : Text.isBlank '\x0c' = true ∧
    (tokenize [] "7").toOption.map (·.map Token.kind) = some [.integer 7] ∧
    cast .integer (.string "\x0c7") = .ok (.integer 0) := by
  refine ⟨by decide, by decide +kernel, rfl⟩

def Sample.ones : List Char := "0fFfFfFfF".toList

theorem ones_agree :
    (Numeral 4294967295 ('0' :: 'X' :: Sample.ones) ∧ ¬ Extends ('0' :: 'X' :: Sample.ones) 'g') ∧
    (∃ t, tokenize [] "0X0fFfFfFfF" = .ok [t] ∧ t.kind = .integer (-1)) ∧
    cast .integer (.string " \t0X0fFfFfFfFg") = .ok (.integer (-1)) := by
  have hvalue : Scan.runValue 16 Sample.ones = 4294967295 := by decide
  have hnumeral : Numeral 4294967295 ('0' :: 'X' :: Sample.ones) :=
    hvalue ▸ .hex (.inr rfl) (by decide) (List.all_eq_true.mp (by decide))
  have hends : ¬ Extends ('0' :: 'X' :: Sample.ones) 'g' := fun h => absurd h.char (by decide)
  obtain ⟨i, t, hi, htokens, hkind, hcast⟩ := casts_agree_with_literals.2.2.1 _ _ [' ', '\t'] ['g'] hnumeral
    (by decide) (by simp [gapChars]) (by simpa using hends)
  have hliteral : Scan.IsLiteral i 4294967295 := hi
  obtain rfl : i = -1 := (Scan.isLiteral_iff.mp hliteral).trans (by decide)
  exact ⟨⟨hnumeral, hends⟩, ⟨t, htokens, hkind⟩, hcast⟩

end WorldScript.Value
