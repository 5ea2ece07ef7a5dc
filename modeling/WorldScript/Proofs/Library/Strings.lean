import Mathlib
import WorldScript.Library.Strings

/-! # Parts of strings

The part of a string between two indices, and where one string is found in another.  The index found is
the first one at which the part as long as the string looked for is that string.
-/

namespace WorldScript.Library

def position (length : Nat) (index : Int32) : Int := if index < 0 then length + index.toInt else index.toInt

def Within (text : List Char) (p : Int) : Prop := 0 ≤ p ∧ p < text.length

/-- The characters of a text from one position to another, or those around them if the first position is the
later one; nothing if one of the positions is outside. -/
structure IsPart (text : List Char) (first last : Int) (part : List Char) : Prop where
  outside : ¬ (Within text first ∧ Within text last) → part = []
  between : Within text first → Within text last → first ≤ last →
    ∃ before after, text = before ++ part ++ after ∧ first = before.length ∧
      last + 1 = (before ++ part).length
  around : Within text first → Within text last → last < first →
    ∃ head middle tail, text = head ++ middle ++ tail ∧ last + 1 = head.length ∧
      first = (head ++ middle).length ∧
      part = head ++ tail

theorem resolveIndex_eq_some :
    resolveIndex index length = some n ↔ position length index = n ∧ n < length := by
  have hresolve : resolveIndex index length =
      if 0 ≤ position length index ∧ position length index < length then some (position length index).toNat
      else none := rfl
  rw [hresolve]
  split
  · rw [Option.some.injEq]
    omega
  · simp only [reduceCtorEq, false_iff]
    omega

theorem resolveIndex_eq_none {text : List Char} :
    resolveIndex index text.length = none ↔ ¬ Within text (position text.length index) := by
  rw [Option.eq_none_iff_forall_ne_some]
  simp only [ne_eq, resolveIndex_eq_some, Within]
  constructor
  · intro h hwithin
    exact h (position text.length index).toNat (by omega)
  · intro h n hn
    omega

variable {text : List Char} {first last : Int32} {start stop : Nat} {index i : Int32} {length n : Nat}
  {needle : List Char} {haystack : String}

theorem subString_of_between (hfirst : position text.length first = start)
    (hlast : position text.length last = stop) (hle : start ≤ stop) (hstop : stop < text.length) :
    subString text first last = (text.take (stop + 1)).drop start := by
  have hstart := resolveIndex_eq_some.mpr ⟨hfirst, by omega⟩
  have hstop := resolveIndex_eq_some.mpr ⟨hlast, hstop⟩
  simp only [subString, hstart, hstop, if_pos hle]

theorem subString_of_around (hfirst : position text.length first = start)
    (hlast : position text.length last = stop) (hlt : stop < start) (hstart : start < text.length) :
    subString text first last = text.take (stop + 1) ++ text.drop start := by
  have hstart := resolveIndex_eq_some.mpr ⟨hfirst, hstart⟩
  have hstop := resolveIndex_eq_some.mpr ⟨hlast, by omega⟩
  simp only [subString, hstart, hstop, if_neg (Nat.not_le.mpr hlt)]

theorem subString_of_outside
    (h : ¬ (Within text (position text.length first) ∧ Within text (position text.length last))) :
    subString text first last = [] := by
  rw [Classical.not_and_iff_not_or_not, ← resolveIndex_eq_none, ← resolveIndex_eq_none] at h
  unfold subString
  split
  · rename_i hstart hstop
    simp [hstart, hstop] at h
  · rfl

/-- A text cut at two places. -/
theorem take_drop_drop (text : List Char) {m : Nat} (h : m ≤ n) :
    text = text.take m ++ (text.take n).drop m ++ text.drop n := by
  have hfront := List.take_append_drop m (text.take n)
  rw [List.take_take, Nat.min_eq_left h] at hfront
  rw [hfront, List.take_append_drop]

theorem subString_isPart (text : List Char) (first last : Int32) :
    IsPart text (position text.length first) (position text.length last) (subString text first last) where
  outside := subString_of_outside
  between hfirst hlast hle := by
    obtain ⟨start, hstart⟩ := Int.eq_ofNat_of_zero_le hfirst.1
    obtain ⟨stop, hstop⟩ := Int.eq_ofNat_of_zero_le hlast.1
    have hlt := hlast.2
    rw [subString_of_between hstart hstop (by omega) (by omega)]
    refine ⟨text.take start, text.drop (stop + 1), take_drop_drop text (by omega), ?_, ?_⟩
    · rw [List.length_take]
      omega
    · rw [List.length_append, List.length_drop, List.length_take, List.length_take]
      omega
  around hfirst hlast hlt := by
    obtain ⟨start, hstart⟩ := Int.eq_ofNat_of_zero_le hfirst.1
    obtain ⟨stop, hstop⟩ := Int.eq_ofNat_of_zero_le hlast.1
    have hlength := hfirst.2
    refine ⟨text.take (stop + 1), (text.take start).drop (stop + 1), text.drop start,
      take_drop_drop text (by omega), ?_, ?_, ?_⟩
    · rw [List.length_take]
      omega
    · rw [List.length_append, List.length_drop, List.length_take, List.length_take]
      omega
    · exact subString_of_around hstart hstop (by omega) (by omega)

theorem getSubString_eq (text : String) (first last : Int32) :
    getSubString [.string text, .integer first, .integer last] =
      .ok (.string (String.ofList (subString text.toList first last))) := rfl

/-- The index found is the first one where the needle stands. -/
theorem findIn_some {text : List Char} {i : Nat} (h : findIn needle text = some i) :
    needle <+: text.drop i ∧ ∀ j < i, ¬ needle <+: text.drop j := by
  fun_induction findIn needle text generalizing i with
  | case1 hempty =>
    obtain rfl := List.isEmpty_iff.mp hempty
    obtain rfl : 0 = i := Option.some.inj h
    exact ⟨List.nil_prefix, nofun⟩
  | case2 => cases h
  | case3 c rest hstart =>
    obtain rfl : 0 = i := Option.some.inj h
    exact ⟨List.isPrefixOf_iff_prefix.mp hstart, nofun⟩
  | case4 c rest hstart ih =>
    obtain ⟨k, hk, rfl⟩ := Option.map_eq_some_iff.mp h
    obtain ⟨hfound, hleast⟩ := ih hk
    refine ⟨hfound, fun j hj => ?_⟩
    cases j with
    | zero => exact fun hneedle => hstart (List.isPrefixOf_iff_prefix.mpr hneedle)
    | succ j => exact hleast j (Nat.lt_of_succ_lt_succ hj)

/-- Where no index is found the needle stands nowhere. -/
theorem findIn_none {text : List Char} (h : findIn needle text = none) (i : Nat) :
    ¬ needle <+: text.drop i := by
  fun_induction findIn needle text generalizing i with
  | case1 => cases h
  | case2 hempty =>
    rw [List.drop_nil, List.prefix_nil]
    exact fun hneedle => hempty (List.isEmpty_iff.mpr hneedle)
  | case3 => cases h
  | case4 c rest hstart ih =>
    cases i with
    | zero => exact fun hneedle => hstart (List.isPrefixOf_iff_prefix.mpr hneedle)
    | succ i => exact ih (Option.map_eq_none_iff.mp h) i

/-- A needle is found before the end. -/
theorem findIn_lt {text : List Char} {i : Nat} (hne : needle ≠ []) (h : findIn needle text = some i) :
    i < text.length := by
  have hlength := (findIn_some h).1.length_le
  have hpos := List.length_pos_iff.mpr hne
  rw [List.length_drop] at hlength
  omega

/-- The last index of a part of `n` characters that starts at an index. -/
theorem toInt_lastIndex (hi : 0 ≤ i.toInt) (hlt : i.toInt < 2 ^ 30) (hn : n < 2 ^ 30) :
    (i + Int32.ofNat n - 1).toInt = i.toInt + n - 1 := by
  have hone : (1 : Int32).toInt = 1 := rfl
  have hsum : (i + Int32.ofNat n).toInt = i.toInt + n := by
    rw [Int32.toInt_add, Int32.toInt_ofNat_of_lt (by omega), Int.bmod_eq_of_le (by omega) (by omega)]
  rw [Int32.toInt_sub, hsum, hone, Int.bmod_eq_of_le (by omega) (by omega)]

theorem position_of_nonneg (h : 0 ≤ index.toInt) : position length index = index.toInt := by
  have hneg : ¬ index < 0 := by
    rw [Int32.lt_iff_toInt_lt]
    exact Int.not_lt.mpr h
  rw [position, if_neg hneg]

/-- The part as long as the needle is the needle exactly where the needle stands. -/
theorem subString_eq_needle {text : List Char} (hne : needle ≠ []) (htext : text.length < 2 ^ 30)
    (hneedle : needle.length < 2 ^ 30) (hi : 0 ≤ i.toInt) :
    subString text i (i + Int32.ofNat needle.length - 1) = needle ↔ needle <+: text.drop i.toInt.toNat := by
  have hpos : 0 < needle.length := List.length_pos_iff.mpr hne
  obtain ⟨start, hstart⟩ := Int.eq_ofNat_of_zero_le hi
  have hfirst : position text.length i = start := (position_of_nonneg hi).trans hstart
  rw [hstart, Int.toNat_natCast]
  by_cases hin : start + needle.length ≤ text.length
  · have hend := toInt_lastIndex hi (by omega) hneedle
    have hlast :
        position text.length (i + Int32.ofNat needle.length - 1) = (start + needle.length - 1 : Nat) := by
      rw [position_of_nonneg (by omega)]
      omega
    rw [subString_of_between hfirst hlast (by omega) (by omega), List.prefix_iff_eq_take, eq_comm,
      Nat.sub_add_cancel (by omega), List.drop_take, Nat.add_sub_cancel_left]
  · -- The needle would reach beyond the end of the text, so the part is empty.
    have hshort : ¬ needle <+: text.drop start := by
      intro h
      have := h.length_le
      rw [List.length_drop] at this
      omega
    have hempty : subString text i (i + Int32.ofNat needle.length - 1) = [] := by
      apply subString_of_outside
      rintro ⟨hwithin, hwithin'⟩
      rw [hfirst] at hwithin
      have hlt := hwithin.2
      have hend := toInt_lastIndex hi (by omega) hneedle
      rw [position_of_nonneg (by omega)] at hwithin'
      have := hwithin'.2
      omega
    rw [hempty]
    exact ⟨fun h => absurd h.symm hne, fun h => absurd h hshort⟩

def FoundAt (haystack needle : String) (i : Int32) : Prop :=
  getSubString [.string haystack, .integer i, .integer (i + Int32.ofNat needle.length - 1)] =
    .ok (.string needle)

theorem nonneg_iff : 0 ≤ i ↔ 0 ≤ i.toInt := Int32.le_iff_toInt_le

theorem foundAt_iff {needle : String} (hne : needle ≠ "") (hhaystack : haystack.length < 2 ^ 30)
    (hneedle : needle.length < 2 ^ 30) (hi : 0 ≤ i) :
    FoundAt haystack needle i ↔ needle.toList <+: haystack.toList.drop i.toInt.toNat := by
  have hlist : needle.toList ≠ [] := by simpa using hne
  rw [← String.length_toList] at hhaystack hneedle
  rw [← subString_eq_needle hlist hhaystack hneedle (nonneg_iff.mp hi), FoundAt, getSubString_eq,
    String.length_toList]
  simp only [Except.ok.injEq, Value.string.injEq]
  constructor
  · exact fun h => by simpa only [String.toList_ofList] using congrArg String.toList h
  · exact fun h => by rw [h, String.ofList_toList]

theorem subStringIndex_eq (haystack needle : String) : subStringIndex [.string haystack, .string needle] =
    .ok (.integer ((findIn needle.toList haystack.toList).elim (-1) Int32.ofNat)) := rfl

/-- The index of a string in another is the least one at which the part of its length is that string, and
minus one where there is none. -/
theorem subStringIndex_least {needle : String} (hne : needle ≠ "") (hhaystack : haystack.length < 2 ^ 30)
    (hneedle : needle.length < 2 ^ 30) :
    ∃ i, subStringIndex [.string haystack, .string needle] = .ok (.integer i) ∧
      ((0 ≤ i ∧ FoundAt haystack needle i ∧ ∀ j, 0 ≤ j → j < i → ¬ FoundAt haystack needle j) ∨
        (i = -1 ∧ ∀ j, 0 ≤ j → ¬ FoundAt haystack needle j)) := by
  have hfoundAt {j : Int32} (hj : 0 ≤ j) := foundAt_iff hne hhaystack hneedle hj
  refine ⟨_, subStringIndex_eq haystack needle, ?_⟩
  cases hfind : findIn needle.toList haystack.toList with
  | none => exact .inr ⟨rfl, fun j hj h => findIn_none hfind _ ((hfoundAt hj).mp h)⟩
  | some k =>
    obtain ⟨hfound, hleast⟩ := findIn_some hfind
    have hk := findIn_lt (by simpa using hne) hfind
    rw [String.length_toList] at hk
    have hindex : (Int32.ofNat k).toInt = k := Int32.toInt_ofNat_of_lt (by omega)
    have hnonneg : 0 ≤ Int32.ofNat k := nonneg_iff.mpr (by omega)
    refine .inl ⟨hnonneg, (hfoundAt hnonneg).mpr ?_, fun j hj hlt h => ?_⟩
    · rwa [hindex, Int.toNat_natCast]
    · have hlt : j.toInt < k := hindex ▸ Int32.lt_iff_toInt_lt.mp hlt
      have hj' := nonneg_iff.mp hj
      exact hleast j.toInt.toNat (by omega) ((hfoundAt hj).mp h)

/-- There is a part for all indices, and it is the one that they ask for. -/
theorem getSubString_isPart (text : String) (first last : Int32) :
    ∃ part, getSubString [.string text, .integer first, .integer last] = .ok (.string part) ∧
      IsPart text.toList (position text.length first) (position text.length last) part.toList := by
  refine ⟨_, getSubString_eq text first last, ?_⟩
  rw [String.toList_ofList, ← String.length_toList]
  exact subString_isPart text.toList first last

/-- Searching and cutting agree: a string is found at the first index where it is cut out, and what is
cut out lies between the positions that the indices stand for, or around them. -/
theorem search_agrees_with_parts :
    (∀ haystack needle : String, needle ≠ "" → haystack.length < 2 ^ 30 → needle.length < 2 ^ 30 →
      ∃ i, subStringIndex [.string haystack, .string needle] = .ok (.integer i) ∧
        ((0 ≤ i ∧ FoundAt haystack needle i ∧ ∀ j, 0 ≤ j → j < i → ¬ FoundAt haystack needle j) ∨
          (i = -1 ∧ ∀ j, 0 ≤ j → ¬ FoundAt haystack needle j))) ∧
    ∀ (text : String) (first last : Int32), ∃ part,
      getSubString [.string text, .integer first, .integer last] = .ok (.string part) ∧
        IsPart text.toList (position text.length first) (position text.length last) part.toList :=
  ⟨fun _ _ => subStringIndex_least, getSubString_isPart⟩

/-- Letters of one to four bytes are found by their number. -/
theorem letters_found : ("ß€𝄞" ≠ "" ∧ "aß€ß€𝄞".length < 2 ^ 30 ∧ "ß€𝄞".length < 2 ^ 30) ∧
    subStringIndex [.string "aß€ß€𝄞", .string "ß€𝄞"] = .ok (.integer 3) ∧ FoundAt "aß€ß€𝄞" "ß€𝄞" 3 ∧
    ∀ j, 0 ≤ j → j < 3 → ¬ FoundAt "aß€ß€𝄞" "ß€𝄞" j := by
  have hinput : "ß€𝄞" ≠ "" ∧ "aß€ß€𝄞".length < 2 ^ 30 ∧ "ß€𝄞".length < 2 ^ 30 := by decide
  have hthree : subStringIndex [.string "aß€ß€𝄞", .string "ß€𝄞"] = .ok (.integer 3) := by rfl
  obtain ⟨i, hi, hfound⟩ := search_agrees_with_parts.1 "aß€ß€𝄞" "ß€𝄞" hinput.1 hinput.2.1 hinput.2.2
  rw [hthree] at hi
  cases hi
  obtain ⟨-, hfound, hleast⟩ | ⟨hnone, -⟩ := hfound
  · exact ⟨hinput, hthree, hfound, hleast⟩
  · cases hnone

end WorldScript.Library
