import Mathlib.Data.String.Basic
import WorldScript.Json.Reading
import WorldScript.Json.Writing
import WorldScript.Proofs.Table
import WorldScript.Proofs.Token.Printing

/-! # Reading what was written

A document is read back from its text, as far as nothing is lost in writing it: there are no doubles in
it, its integers are those of 64 bits, and the names of its fields stand in order.  What is read first
has to end where its text ends, so every part is read in front of something that cannot belong to it.
-/

namespace WorldScript.Document

variable {n depth : Nat} {rest text after : List Char} {c : Char} {d : Document} {items : List Document}
  {fields : List (String × Document)}

theorem hexDigit_spec :
    ∀ n < 16, Number.isHexDigit (hexDigit n) = true ∧ Number.digitValue (hexDigit n) = n := by
  decide +kernel

theorem escapedUnits?_control (h : n < 32) (rest : List Char) :
    escapedUnits? ('0' :: '0' :: hexDigit (n / 16) :: hexDigit (n % 16) :: rest) =
      some (Char.ofNat n, rest) := by
  obtain ⟨hhigh, hhigh'⟩ := hexDigit_spec (n / 16) (by omega)
  obtain ⟨hlow, hlow'⟩ := hexDigit_spec (n % 16) (by omega)
  have hvalue : Number.ofDigits 16 ['0', '0', hexDigit (n / 16), hexDigit (n % 16)] = n := by
    have hzero : Number.digitValue '0' = 0 := by decide
    simp only [Number.ofDigits, List.foldl_cons, List.foldl_nil, hhigh', hlow', hzero]
    omega
  have hunit : codeUnit? ('0' :: '0' :: hexDigit (n / 16) :: hexDigit (n % 16) :: rest) = some (n, rest) := by
    have hzero : Number.isHexDigit '0' = true := by decide
    simp [codeUnit?, hhigh, hlow, hzero, hvalue]
  have hplain : ¬ (0xD800 ≤ n) := by omega
  have hplain' : ¬ (0xDC00 ≤ n) := by omega
  simp [escapedUnits?, hunit, hplain, hplain']

/-- A character is written with a short escape, with its code, or as it is. -/
theorem charText_cases (c : Char) :
    (∃ e, e ≠ 'u' ∧ escaped? e = some c ∧ charText c = ['\\', e]) ∨
      (c.toNat < 32 ∧ charText c = ['\\', 'u', '0', '0', hexDigit (c.toNat / 16), hexDigit (c.toNat % 16)]) ∨
      (¬ c.toNat < 32 ∧ c ≠ '"' ∧ c ≠ '\\' ∧ charText c = [c]) := by
  unfold charText
  split
  case h_8 hquote hslash _ _ _ _ _ =>
    split
    · rename_i hcontrol
      exact .inr (.inl ⟨hcontrol, rfl⟩)
    · rename_i hcontrol
      exact .inr (.inr ⟨hcontrol, hquote, hslash, rfl⟩)
  all_goals exact .inl ⟨_, by decide, rfl, rfl⟩

/-- A written character is read back. -/
theorem stringBody?_charText (c : Char) (rest : List Char) :
    stringBody? (charText c ++ rest) = (stringBody? rest).map fun p => (c :: p.1, p.2) := by
  rcases charText_cases c with ⟨e, hu, he, htext⟩ | ⟨hcontrol, htext⟩ | ⟨hcontrol, hquote, hslash, htext⟩
  · rw [htext, List.cons_append, List.cons_append, List.nil_append, stringBody?, he]
    exact hu
  · rw [htext]
    simp only [List.cons_append, List.nil_append]
    rw [stringBody?]
    split
    · rename_i h
      rw [escapedUnits?_control hcontrol] at h
      cases h
    · rename_i h
      rw [escapedUnits?_control hcontrol, Char.ofNat_toNat] at h
      cases h
      rfl
  · rw [htext, List.cons_append, List.nil_append, stringBody?]
    · rw [if_neg (by simp [hcontrol, hslash])]
    all_goals simp_all

theorem stringBody?_written (cs rest : List Char) :
    stringBody? (cs.flatMap charText ++ '"' :: rest) = some (cs, rest) := by
  induction cs with
  | nil => rw [List.flatMap_nil, List.nil_append, stringBody?]
  | cons c cs ih =>
    rw [List.flatMap_cons, List.append_assoc, stringBody?_charText, ih]
    rfl

def Ends (rest : List Char) : Prop := ∀ c ∈ rest.head?, c = ',' ∨ c = ']' ∨ c = '\x7d'

theorem Ends.not_isDigit (h : Ends rest) : ∀ c ∈ rest.head?, c.isDigit = false := by
  intro c hc
  rcases h c hc with rfl | rfl | rfl <;> decide

theorem Ends.fractionText? (h : Ends rest) : fractionText? rest = some (none, rest) := by
  unfold Document.fractionText?
  split
  · rename_i more
    simpa using h '.' rfl
  · rfl

theorem Ends.exponentText? (h : Ends rest) : exponentText? rest = some (none, rest) := by
  unfold Document.exponentText?
  split
  · rename_i c more
    rw [if_neg]
    rcases h c rfl with rfl | rfl | rfl <;> decide
  · rfl

/-- Only zero is written with a zero in front. -/
theorem head?_toDigits (h : (Nat.toDigits 10 n).head? = some '0') : (Nat.toDigits 10 n).length = 1 := by
  have hzero : ∀ n : Nat, (Nat.toDigits 10 n).head? = some '0' → n = 0 := by
    intro n
    induction n using Nat.strongRecOn with
    | ind n ih =>
      by_cases hn : n < 10
      · have hdigit : ∀ d < 10, d.digitChar = '0' → d = 0 := by decide
        rw [Nat.toDigits_of_lt_base hn]
        intro hhead
        exact hdigit n hn (Option.some.inj hhead)
      · rw [Nat.toDigits_of_base_le (by decide) (Nat.not_lt.mp hn),
          List.head?_append_of_ne_nil _ Nat.toDigits_ne_nil]
        intro hhead
        have := ih (n / 10) (by omega) hhead
        omega
  rw [hzero n h]
  decide

theorem absorb_of_lt {start : Nat} {run : List Char}
    (h : run.foldl (fun n c => n * 10 + Number.digitValue c) start < UInt64.size) :
    absorb start run = (run.foldl (fun n c => n * 10 + Number.digitValue c) start, run.length) := by
  have hgrow (run : List Char) (start : Nat) :
      start ≤ run.foldl (fun n c => n * 10 + Number.digitValue c) start := by
    induction run generalizing start with
    | nil => exact Nat.le_refl _
    | cons c run ih =>
      have := ih (start * 10 + Number.digitValue c)
      rw [List.foldl_cons]
      omega
  induction run generalizing start with
  | nil => rfl
  | cons c run ih =>
    rw [List.foldl_cons] at h ⊢
    have hnext := hgrow run (start * 10 + Number.digitValue c)
    rw [absorb, if_pos (by omega), ih h]
    rfl

theorem absorb_toDigits (h : n < UInt64.size) :
    absorb 0 (Nat.toDigits 10 n) = (n, (Nat.toDigits 10 n).length) := by
  have hvalue : Number.ofDigits 10 (Nat.toDigits 10 n) = n := by
    rw [Scan.ofDigits_eq_runValue, Scan.runValue_toDigits (by decide) (by decide)]
  have hfold : (Nat.toDigits 10 n).foldl (fun n c => n * 10 + Number.digitValue c) 0 = n := hvalue
  rw [absorb_of_lt (hfold.symm ▸ h), hfold]

/-- The digits of a number are read as its whole part. -/
theorem numberText?_toDigits (n : Nat) (h : Ends rest) :
    numberText? (Nat.toDigits 10 n ++ rest) = some (⟨false, Nat.toDigits 10 n, none, none⟩, rest) ∧
      numberText? ('-' :: (Nat.toDigits 10 n ++ rest)) =
        some (⟨true, Nat.toDigits 10 n, none, none⟩, rest) := by
  have hdigits : ∀ c ∈ Nat.toDigits 10 n, c.isDigit = true := fun c hc =>
    Nat.isDigit_of_mem_toDigits (by decide) (by decide) hc
  obtain ⟨htake, hdrop⟩ := Scan.span_eq_iff.mpr ⟨rfl, hdigits, h.not_isDigit⟩
  constructor
  · have hsign : ∀ more, Nat.toDigits 10 n ++ rest ≠ '-' :: more := by
      intro more heq
      obtain ⟨c, cs, hcs⟩ := List.exists_cons_of_ne_nil (Nat.toDigits_ne_nil (b := 10) (n := n))
      rw [hcs, List.cons_append] at heq
      have hc := hdigits c (hcs ▸ List.mem_cons_self)
      rw [(List.cons.inj heq).1] at hc
      revert hc
      decide
    simpa [numberText?, hsign, htake, hdrop, h.fractionText?, h.exponentText?] using head?_toDigits
  · simpa [numberText?, htake, hdrop, h.fractionText?, h.exponentText?] using head?_toDigits

def InRange (n : Int) : Prop := Int64.minValue.toInt ≤ n ∧ n < UInt64.size

theorem document?_toDigits (h : n < UInt64.size) :
    NumberText.document? ⟨false, Nat.toDigits 10 n, none, none⟩ = some (.integer n) := by
  simp [NumberText.document?, absorb_toDigits h]

theorem document?_neg_toDigits (hpos : 0 < n) (h : n ≤ Int64.minValue.toInt.natAbs) :
    NumberText.document? ⟨true, Nat.toDigits 10 n, none, none⟩ = some (.integer (-n)) := by
  have hsize : n < UInt64.size := Nat.lt_of_le_of_lt h (by decide)
  have hmin : n ≤ 9223372036854775808 := h
  simp [NumberText.document?, absorb_toDigits hsize, hpos, hmin]

/-- A number starts like nothing else. -/
theorem number_ne {other : Char} (h : c = '-' ∨ c.isDigit = true)
    (hother : other ≠ '-' ∧ other.isDigit = false) : c ≠ other := by
  rintro rfl
  rcases h with h | h
  · exact hother.1 h
  · exact absurd h (by simp [hother.2])

/-- A number is read where nothing else begins. -/
theorem scalar?_number {number : NumberText} (hc : c = '-' ∨ c.isDigit = true)
    (hnumber : numberText? (c :: text) = some (number, rest)) (hd : number.document? = some d) :
    scalar? (c :: text) = some (d, rest) := by
  unfold scalar?
  split
  case h_5 =>
    simp [hnumber, hd]
  all_goals
    rename_i heq
    exact absurd (List.cons.inj heq).1 (number_ne hc (by decide))

theorem toList_toString (n : Int) :
    (toString n).toList = (if n < 0 then ['-'] else []) ++ Nat.toDigits 10 n.natAbs := by
  rw [Int.toString_eq_repr, Int.repr_eq_if]
  by_cases hn : 0 ≤ n
  · rw [if_pos hn, if_neg (by omega), List.nil_append, Nat.toList_repr]
    congr 1
    omega
  · rw [if_neg hn, if_pos (by omega), String.toList_append, Nat.toList_repr]
    congr 2
    omega

/-- An integer starts with a minus or a digit. -/
theorem exists_toList_toString (n : Int) :
    ∃ c cs, (toString n).toList = c :: cs ∧ (c = '-' ∨ c.isDigit = true) := by
  rw [toList_toString]
  by_cases hn : n < 0
  · exact ⟨_, _, by rw [if_pos hn]; rfl, .inl rfl⟩
  · obtain ⟨c, cs, hcs⟩ := List.exists_cons_of_ne_nil (Nat.toDigits_ne_nil (b := 10) (n := n.natAbs))
    have hc : c ∈ Nat.toDigits 10 n.natAbs := hcs ▸ List.mem_cons_self
    exact ⟨c, cs, by rw [if_neg hn, hcs]; rfl, .inr (Nat.isDigit_of_mem_toDigits (by decide) (by decide) hc)⟩

theorem scalar?_integer {n : Int} (hn : InRange n) (h : Ends rest) :
    scalar? ((toString n).toList ++ rest) = some (.integer n, rest) := by
  obtain ⟨c, cs, hcs, hc⟩ := exists_toList_toString n
  obtain ⟨hunsigned, hsigned⟩ := numberText?_toDigits n.natAbs h
  have htext := toList_toString n
  obtain ⟨hmin, hmax⟩ := hn
  rw [hcs] at htext ⊢
  rw [List.cons_append]
  by_cases hneg : n < 0
  · rw [if_pos hneg] at htext
    rw [show n = -(n.natAbs : Int) by omega]
    apply scalar?_number hc _ (document?_neg_toDigits (by omega) (by omega))
    rw [← List.cons_append, htext]
    exact hsigned
  · rw [if_neg hneg, List.nil_append] at htext
    rw [show n = (n.natAbs : Int) by omega]
    apply scalar?_number hc _ (document?_toDigits (by omega))
    rw [← List.cons_append, htext]
    exact hunsigned

/-- A reader finds something at the start of a text, and this is what follows. -/
def Finds {α : Type} {text : List Char} (r : Reading α text) (found : α) (rest : List Char) : Prop :=
  ∃ h, r = some ⟨(found, rest), h⟩

theorem skipGap_of_head (h : isGap c = false) (text : List Char) : skipGap (c :: text) = c :: text := by
  simp [skipGap, h]

/-- Where neither an array nor an object begins, there is a scalar. -/
theorem value?_scalar {cs : List Char} (hgap : isGap c = false) (harray : c ≠ '[') (hobject : c ≠ '\x7b')
    (h : scalar? (c :: cs ++ rest) = some (d, rest)) : Finds (value? depth (c :: cs ++ rest)) d rest := by
  have hlen : rest.length < (c :: cs ++ rest).length := by
    simp only [List.cons_append, List.length_cons, List.length_append]
    omega
  have hskip : skipGap (c :: cs ++ rest) = c :: cs ++ rest := skipGap_of_head hgap (cs ++ rest)
  refine ⟨hlen, ?_⟩
  rw [value?]
  split
  · rename_i heq
    rw [hskip] at heq
    exact absurd (List.cons.inj heq).1 harray
  · rename_i heq
    rw [hskip] at heq
    exact absurd (List.cons.inj heq).1 hobject
  · rw [hskip, h, shorter, dif_pos hlen]

theorem value?_empty_array (depth : Nat) (rest : List Char) :
    Finds (value? (depth + 2) ('[' :: ']' :: rest)) (.array []) rest := by
  refine ⟨by simp only [List.length_cons]; omega, ?_⟩
  rw [value?]
  rfl

theorem value?_array (hitem : ∀ more, skipGap text ≠ ']' :: more)
    (h : Finds (items? (depth + 1) text) items after) :
    Finds (value? (depth + 2) ('[' :: text)) (.array items) after := by
  obtain ⟨hlen, h⟩ := h
  refine ⟨Nat.lt_succ_of_lt hlen, ?_⟩
  rw [value?]
  split
  · rename_i heq
    cases heq
    dsimp only
    split
    · omega
    · omega
    · rename_i hdepth
      cases hdepth
      split
      · rename_i heq
        exact absurd heq (hitem _)
      · rw [h]
        rfl
  · rename_i heq
    cases heq
  · rename_i harray _
    exact absurd rfl (harray text)

theorem value?_empty_object (depth : Nat) (rest : List Char) :
    Finds (value? (depth + 2) ('\x7b' :: '\x7d' :: rest)) (.object []) rest := by
  refine ⟨by simp only [List.length_cons]; omega, ?_⟩
  rw [value?]
  rfl

theorem value?_object (hfield : ∀ more, skipGap text ≠ '\x7d' :: more)
    (h : Finds (fields? (depth + 1) text) fields after) :
    Finds (value? (depth + 2) ('\x7b' :: text)) (.ofFields fields) after := by
  obtain ⟨hlen, h⟩ := h
  refine ⟨Nat.lt_succ_of_lt hlen, ?_⟩
  rw [value?]
  split
  · rename_i heq
    cases heq
  · rename_i heq
    cases heq
    dsimp only
    split
    · omega
    · omega
    · rename_i hdepth
      cases hdepth
      split
      · rename_i heq
        exact absurd heq (hfield _)
      · rw [h]
        rfl
  · rename_i hobject
    exact absurd rfl (hobject text)

theorem items?_last (h : Finds (value? depth text) d (']' :: after)) :
    Finds (items? depth text) [d] after := by
  obtain ⟨hlen, h⟩ := h
  refine ⟨Nat.lt_of_succ_lt hlen, ?_⟩
  rw [items?, h]
  rfl

theorem items?_cons {more : List Char} (h : Finds (value? depth text) d (',' :: more))
    (hmore : Finds (items? depth more) items after) : Finds (items? depth text) (d :: items) after := by
  obtain ⟨hlen, h⟩ := h
  obtain ⟨hlen', hmore⟩ := hmore
  refine ⟨Nat.lt_trans hlen' (Nat.lt_of_succ_lt hlen), ?_⟩
  rw [items?, h]
  change (do let x ← items? depth more; pure _) = _
  rw [hmore]
  rfl

theorem toList_stringText (s : String) :
    (stringText s).toList = '"' :: (s.toList.flatMap charText ++ ['"']) := by
  rw [stringText, String.toList_ofList]
  rfl

theorem fieldName?_written (name : String) (rest : List Char) :
    fieldName? ((stringText name).toList ++ ':' :: rest) = some (name, rest) := by
  have hskip (c : Char) (text : List Char) (hc : isGap c = false) := skipGap_of_head hc text
  rw [toList_stringText, List.cons_append, List.append_assoc, List.singleton_append, fieldName?,
    hskip _ _ (by decide)]
  simp only [stringBody?_written]
  rw [hskip _ _ (by decide), String.ofList_toList]
  rfl

theorem fields?_last {body : List Char} {name : String} (hname : fieldName? text = some (name, body))
    (hlen : body.length < text.length) (h : Finds (value? depth body) d ('\x7d' :: after)) :
    Finds (fields? depth text) [(name, d)] after := by
  obtain ⟨hbody, h⟩ := h
  refine ⟨Nat.lt_trans (Nat.lt_of_succ_lt hbody) hlen, ?_⟩
  rw [fields?, hname, shorter, dif_pos hlen]
  simp only [Option.bind_eq_bind, Option.bind_some]
  rw [h]
  rfl

theorem fields?_cons {body more : List Char} {name : String} (hname : fieldName? text = some (name, body))
    (hlen : body.length < text.length) (h : Finds (value? depth body) d (',' :: more))
    (hmore : Finds (fields? depth more) fields after) :
    Finds (fields? depth text) ((name, d) :: fields) after := by
  obtain ⟨hbody, h⟩ := h
  obtain ⟨hlen', hmore⟩ := hmore
  refine ⟨Nat.lt_trans hlen' (Nat.lt_trans (Nat.lt_of_succ_lt hbody) hlen), ?_⟩
  rw [fields?, hname, shorter, dif_pos hlen]
  simp only [Option.bind_eq_bind, Option.bind_some]
  rw [h]
  change (do let x ← fields? depth more; pure _) = _
  rw [hmore]
  rfl

/-- The documents that are read back from their text, with arrays and objects that nest at most so deep. -/
inductive Legible : Nat → Document → Prop
  | null {depth : Nat} : Legible depth .null
  | bool {depth : Nat} (b : Bool) : Legible depth (.bool b)
  | integer {depth : Nat} {n : Int} (h : InRange n) : Legible depth (.integer n)
  | string {depth : Nat} (s : String) : Legible depth (.string s)
  | array {depth : Nat} {items : List Document} (h : ∀ d ∈ items, Legible depth d) :
    Legible (depth + 1) (.array items)
  | object {depth : Nat} {fields : List (String × Document)} (hsorted : (Table.mk fields).Sorted)
    (h : ∀ f ∈ fields, Legible depth f.2) : Legible (depth + 1) (.object fields)

theorem number_opens (h : c = '-' ∨ c.isDigit = true) : isGap c = false ∧ c ≠ ']' ∧ c ≠ '[' ∧ c ≠ '\x7b' := by
  have hne (other : Char) (hother : other ≠ '-' ∧ other.isDigit = false) := number_ne h hother
  refine ⟨?_, hne _ (by decide), hne _ (by decide), hne _ (by decide)⟩
  simp [isGap, hne ' ' (by decide), hne '\n' (by decide), hne '\t' (by decide), hne '\r' (by decide)]

/-- No text starts with a blank, or as if an array ended. -/
theorem Legible.opens (h : Legible depth d) :
    ∃ c cs, d.compact.toList = c :: cs ∧ isGap c = false ∧ c ≠ ']' := by
  cases h with
  | null => exact ⟨'n', ['u', 'l', 'l'], by decide +kernel, by decide, by decide⟩
  | bool b =>
    cases b with
    | true => exact ⟨'t', ['r', 'u', 'e'], by decide +kernel, by decide, by decide⟩
    | false => exact ⟨'f', ['a', 'l', 's', 'e'], by decide +kernel, by decide, by decide⟩
  | @integer _ n _ =>
    obtain ⟨c, cs, hcs, hc⟩ := exists_toList_toString n
    obtain ⟨hgap, hclose, -⟩ := number_opens hc
    exact ⟨c, cs, hcs, hgap, hclose⟩
  | string s => exact ⟨'"', _, toList_stringText s, by decide, by decide⟩
  | array _ =>
    exact ⟨'[', _, by rw [compact, String.append_assoc, String.toList_append]; rfl, by decide, by decide⟩
  | object _ _ =>
    exact ⟨'\x7b', _, by rw [compact, String.append_assoc, String.toList_append]; rfl, by decide, by decide⟩

theorem compactItems_eq (items : List Document) : compactItems items = items.map compact := by
  induction items with
  | nil => rw [compactItems, List.map_nil]
  | cons d rest ih => rw [compactItems, ih, List.map_cons]

theorem compactFields_eq (fields : List (String × Document)) :
    compactFields fields = fields.map fun f => stringText f.1 ++ ":" ++ f.2.compact := by
  induction fields with
  | nil => rw [compactFields, List.map_nil]
  | cons f rest ih => rw [compactFields, ih, List.map_cons]

def ReadBack (depth : Nat) (d : Document) : Prop :=
  ∀ rest, Ends rest → Finds (value? depth (d.compact.toList ++ rest)) d rest

theorem ends_cons (h : c = ',' ∨ c = ']' ∨ c = '\x7d') (rest : List Char) : Ends (c :: rest) := by
  rintro c' ⟨⟩
  exact h

/-- A text that goes on after a comma. -/
theorem toList_comma (first second : String) (rest : List Char) :
    (first ++ "," ++ second).toList ++ rest = first.toList ++ ',' :: (second.toList ++ rest) := by
  simp [String.toList_append]

theorem items?_written (rest : List Char) (h : ∀ d' ∈ d :: items, ReadBack depth d') :
    Finds (items? depth ((",".intercalate (compactItems (d :: items))).toList ++ ']' :: rest))
      (d :: items) rest := by
  rw [compactItems_eq]
  induction items generalizing d with
  | nil =>
    rw [List.map_singleton, String.intercalate_singleton]
    exact items?_last (h d List.mem_cons_self _ (ends_cons (by simp) _))
  | cons d' items ih =>
    rw [List.map_cons, List.map_cons, String.intercalate_cons_cons, toList_comma]
    apply items?_cons
    · exact h d List.mem_cons_self _ (ends_cons (by simp) _)
    · exact ih fun d'' hd'' => h d'' (List.mem_cons_of_mem _ hd'')

theorem fields?_written (rest : List Char) {f : String × Document}
    (h : ∀ f' ∈ f :: fields, ReadBack depth f'.2) :
    Finds (fields? depth ((",".intercalate (compactFields (f :: fields))).toList ++ '\x7d' :: rest))
      (f :: fields)
      rest := by
  -- the colon stands between the name and the value, and the value ends where the field ends
  have hname (f : String × Document) (more : List Char) :
      fieldName? ((stringText f.1 ++ ":" ++ f.2.compact).toList ++ more) = some (f.1,
        f.2.compact.toList ++ more) := by
    have htext : (stringText f.1 ++ ":" ++ f.2.compact).toList ++ more =
        (stringText f.1).toList ++ ':' :: (f.2.compact.toList ++ more) := by simp [String.toList_append]
    rw [htext, fieldName?_written]
  have hlen (f : String × Document) (more : List Char) : (f.2.compact.toList ++ more).length <
      ((stringText f.1 ++ ":" ++ f.2.compact).toList ++ more).length := by
    simp only [String.toList_append, List.length_append, List.append_assoc]
    have : 0 < ":".toList.length := by decide
    omega
  rw [compactFields_eq]
  induction fields generalizing f with
  | nil =>
    rw [List.map_singleton, String.intercalate_singleton]
    exact fields?_last (hname f _) (hlen f _) (h f List.mem_cons_self _ (ends_cons (by simp) _))
  | cons f' fields ih =>
    rw [List.map_cons, List.map_cons, String.intercalate_cons_cons, toList_comma]
    apply fields?_cons (hname f _) (hlen f _)
    · exact h f List.mem_cons_self _ (ends_cons (by simp) _)
    · exact ih fun f'' hf'' => h f'' (List.mem_cons_of_mem _ hf'')

/-- Joined texts start like the first of them. -/
theorem skipGap_joined {texts others : List String} {first : String} {close : Char}
    (htexts : texts = first :: others) (hfirst : first.toList.head? = some c) (hgap : isGap c = false)
    (hclose : c ≠ close) : ∀ more, skipGap ((",".intercalate texts).toList ++ rest) ≠ close :: more := by
  have hhead : ((",".intercalate texts).toList ++ rest).head? = some c := by
    rw [htexts]
    cases others with
    | nil => rw [String.intercalate_singleton, List.head?_append, hfirst, Option.some_or]
    | cons =>
      rw [String.intercalate_cons_cons, toList_comma, List.head?_append, hfirst, Option.some_or]
  intro more heq
  obtain ⟨tail, htail⟩ := List.head?_eq_some_iff.mp hhead
  rw [htail, skipGap_of_head hgap] at heq
  exact hclose (List.cons.inj heq).1

/-- A scalar is read back in front of whatever ends it. -/
theorem readBack_scalar (c : Char) (cs : List Char) (htext : d.compact.toList = c :: cs)
    (hc : isGap c = false ∧ c ≠ '[' ∧ c ≠ '\x7b')
    (h : ∀ rest, Ends rest → scalar? (d.compact.toList ++ rest) = some (d, rest)) : ReadBack depth d := by
  intro rest hrest
  have hscalar := h rest hrest
  rw [htext] at hscalar ⊢
  exact value?_scalar hc.1 hc.2.1 hc.2.2 hscalar

theorem ofFields_of_sorted (h : (Table.mk fields).Sorted) : ofFields fields = .object fields := by
  rw [ofFields, Table.ofList_of_sorted h]

/-- A document is read back from its text. -/
theorem Legible.readBack (h : Legible n d) (hdepth : n < depth) : ReadBack depth d := by
  induction h generalizing depth with
  | null => exact readBack_scalar 'n' ['u', 'l', 'l'] (by decide +kernel) (by decide) fun _ _ => rfl
  | bool b =>
    cases b with
    | true =>
      exact readBack_scalar 't' ['r', 'u', 'e'] (by decide +kernel) (by decide) fun _ _ => rfl
    | false =>
      exact readBack_scalar 'f' ['a', 'l', 's', 'e'] (by decide +kernel) (by decide) fun _ _ => rfl
  | @integer _ n hn =>
    obtain ⟨c, cs, hcs, hc⟩ := exists_toList_toString n
    obtain ⟨hgap, -, harray, hobject⟩ := number_opens hc
    exact readBack_scalar c cs hcs ⟨hgap, harray, hobject⟩ fun rest hrest => scalar?_integer hn hrest
  | string s =>
    refine readBack_scalar _ _ (toList_stringText s) (by decide) fun rest _ => ?_
    rw [compact, toList_stringText, List.cons_append, List.append_assoc, List.singleton_append, scalar?,
      stringBody?_written, Option.map_some]
    simp only [String.ofList_toList]
  | @array n items h ih =>
    intro rest hrest
    obtain ⟨depth, rfl⟩ : ∃ k, depth = k + 2 := ⟨depth - 2, by omega⟩
    rw [compact]
    cases items with
    | nil => exact value?_empty_array depth rest
    | cons d items =>
      have htext (body : String) :
          ("[" ++ body ++ "]").toList ++ rest = '[' :: (body.toList ++ ']' :: rest) := by
        simp [String.toList_append]
      rw [htext]
      apply value?_array
      · obtain ⟨c, cs, hcs, hgap, hclose⟩ := (h d List.mem_cons_self).opens
        exact skipGap_joined (by rw [compactItems]) (by rw [hcs, List.head?_cons]) hgap hclose
      · exact items?_written rest fun d' hd' => ih d' hd' (by omega)
  | @object n fields hsorted h ih =>
    intro rest hrest
    obtain ⟨depth, rfl⟩ : ∃ k, depth = k + 2 := ⟨depth - 2, by omega⟩
    rw [compact, ← ofFields_of_sorted hsorted]
    cases fields with
    | nil => exact value?_empty_object depth rest
    | cons f fields =>
      have htext (body : String) :
          ("\x7b" ++ body ++ "\x7d").toList ++ rest = '\x7b' :: (body.toList ++ '\x7d' :: rest) := by
        simp [String.toList_append]
      rw [htext]
      apply value?_object
      · obtain ⟨name, d⟩ := f
        refine skipGap_joined (by rw [compactFields]) (c := '"') ?_ (by decide) (by decide)
        rw [String.append_assoc, String.toList_append, toList_stringText, List.cons_append, List.head?_cons]
      · exact fields?_written rest fun f' hf' => ih f' hf' (by omega)

theorem read?_compact (h : Legible n d) (hdepth : n < depthLimit) : read? d.compact = some d := by
  have hfinds := h.readBack hdepth [] (by rintro c ⟨⟩)
  rw [List.append_nil] at hfinds
  obtain ⟨hlen, hvalue⟩ := hfinds
  rw [read?, hvalue]
  rfl

end WorldScript.Document
