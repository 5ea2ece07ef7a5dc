import Mathlib.Data.List.Induction
import Mathlib.Order.Defs.Unbundled
import WorldScript.Table

/-! # Laws of tables

A table answers for a key with the value that was set last.  As long as a table only comes from
insertions, its keys increase, so that every entry is the answer for its key.
-/

namespace WorldScript

namespace Table

variable {κ α : Type} [LT κ] [DecidableLT κ] [DecidableEq κ]

theorem get?_insert_self (t : Table κ α) (key : κ) (value : α) :
    (t.insert key value).get? key = some value := by
  obtain ⟨entries⟩ := t
  induction entries with
  | nil => simp [insert, insertInto, get?]
  | cons e rest ih =>
    simp only [insert, insertInto, get?] at ih ⊢
    by_cases hk : key = e.1
    · simp [hk]
    · by_cases hlt : key < e.1
      · simp [hk, hlt]
      · have hne : ¬ e.1 = key := fun h => hk h.symm
        simpa [hk, hlt, hne] using ih

theorem get?_insert_of_ne (t : Table κ α) {key other : κ} (value : α) (h : other ≠ key) :
    (t.insert key value).get? other = t.get? other := by
  obtain ⟨entries⟩ := t
  induction entries with
  | nil => simp [insert, insertInto, get?, h.symm]
  | cons e rest ih =>
    simp only [insert, insertInto, get?] at ih ⊢
    by_cases hk : key = e.1
    · have hne : ¬ e.1 = other := fun he => h (he.symm.trans hk.symm)
      simp [hk, hne]
    · by_cases hlt : key < e.1
      · have hne' : ¬ key = other := fun he => h he.symm
        simp [hk, hlt, hne']
      · rw [if_neg hk, if_neg hlt, List.find?_cons, List.find?_cons]
        by_cases ho : e.1 = other
        · simp [ho]
        · simpa [ho] using ih

theorem get?_insert (t : Table κ α) (key other : κ) (value : α) :
    (t.insert key value).get? other = if other = key then some value else t.get? other := by
  split
  · rename_i h
    rw [h, get?_insert_self]
  · rename_i h
    exact get?_insert_of_ne t value h

omit [LT κ] [DecidableLT κ] in
theorem get?_empty (key : κ) : (empty : Table κ α).get? key = none := rfl

omit [LT κ] [DecidableLT κ] in
theorem mem_of_get? {t : Table κ α} {key : κ} {value : α} (h : t.get? key = some value) :
    (key, value) ∈ t.entries := by
  obtain ⟨e, he, rfl⟩ := Option.map_eq_some_iff.mp h
  have hkey : e.1 = key := by simpa using List.find?_some he
  exact hkey ▸ List.mem_of_find?_eq_some he

def Sorted (t : Table κ α) : Prop := t.entries.Pairwise fun a b => a.1 < b.1

omit [DecidableLT κ] [DecidableEq κ] in
theorem sorted_empty : (empty : Table κ α).Sorted := .nil

theorem mem_insertInto {key : κ} {value : α} {entries : List (κ × α)} {e : κ × α}
    (h : e ∈ insertInto key value entries) : e = (key, value) ∨ e ∈ entries := by
  induction entries with
  | nil => exact .inl (by simpa [insertInto] using h)
  | cons first rest ih =>
    unfold insertInto at h
    split at h
    · obtain rfl | h := List.mem_cons.mp h
      · exact .inl rfl
      · exact .inr (List.mem_cons_of_mem _ h)
    · split at h
      · exact List.mem_cons.mp h
      · obtain rfl | h := List.mem_cons.mp h
        · exact .inr List.mem_cons_self
        · exact (ih h).imp_right (List.mem_cons_of_mem _)

theorem ofList_concat (entries : List (κ × α)) (e : κ × α) :
    ofList (entries ++ [e]) = (ofList entries).insert e.1 e.2 := by
  rw [ofList, List.foldl_append, List.foldl_cons, List.foldl_nil, ← ofList]

section Sorted

variable [IsStrictTotalOrder κ (· < ·)] {t : Table κ α}

theorem Sorted.insert (h : t.Sorted) (key : κ) (value : α) : (t.insert key value).Sorted := by
  obtain ⟨entries⟩ := t
  change (insertInto key value entries).Pairwise _
  replace h : entries.Pairwise _ := h
  induction entries with
  | nil => exact List.pairwise_singleton _ _
  | cons first rest ih =>
    obtain ⟨hfirst, hrest⟩ := List.pairwise_cons.mp h
    unfold insertInto
    split
    · rename_i hk
      exact List.pairwise_cons.mpr ⟨fun e he => hk ▸ hfirst e he, hrest⟩
    · rename_i hk
      split
      · rename_i hlt
        refine List.pairwise_cons.mpr ⟨fun e he => ?_, h⟩
        obtain rfl | he := List.mem_cons.mp he
        · exact hlt
        · exact IsTrans.trans _ _ _ hlt (hfirst e he)
      · rename_i hlt
        refine List.pairwise_cons.mpr ⟨fun e he => ?_, ih hrest⟩
        obtain rfl | he := mem_insertInto he
        · rcases trichotomous_of (· < ·) key first.1 with h | h | h
          · exact absurd h hlt
          · exact absurd h hk
          · exact h
        · exact hfirst e he

omit [DecidableLT κ] in
theorem Sorted.get?_of_mem (h : t.Sorted) {key : κ} {value : α} (he : (key, value) ∈ t.entries) :
    t.get? key = some value := by
  obtain ⟨entries⟩ := t
  replace h : entries.Pairwise _ := h
  replace he : (key, value) ∈ entries := he
  induction entries with
  | nil => cases he
  | cons first rest ih =>
    obtain ⟨hfirst, hrest⟩ := List.pairwise_cons.mp h
    obtain rfl | he := List.mem_cons.mp he
    · simp [get?]
    · have hne : ¬ first.1 = key := by
        intro heq
        have hlt : first.1 < key := hfirst (key, value) he
        exact irrefl_of (· < ·) key (heq ▸ hlt)
      simpa [get?, hne] using ih hrest he

theorem insertInto_of_lt {key : κ} {entries : List (κ × α)} (h : ∀ e ∈ entries, e.1 < key) (value : α) :
    insertInto key value entries = entries ++ [(key, value)] := by
  induction entries with
  | nil => rfl
  | cons first rest ih =>
    have hfirst : first.1 < key := h first List.mem_cons_self
    have hne : ¬ key = first.1 := fun heq => irrefl_of (· < ·) key (heq ▸ hfirst)
    have hlt : ¬ key < first.1 := fun hlt => irrefl_of (· < ·) key (IsTrans.trans _ _ _ hlt hfirst)
    rw [insertInto, if_neg hne, if_neg hlt, ih fun e he => h e (List.mem_cons_of_mem _ he), List.cons_append]

/-- Entries in order make the table that has them. -/
theorem ofList_of_sorted (h : t.Sorted) : ofList t.entries = t := by
  obtain ⟨entries⟩ := t
  replace h : entries.Pairwise _ := h
  have hfold (before rest : List (κ × α)) (h : (before ++ rest).Pairwise fun a b => a.1 < b.1) :
      rest.foldl (fun t e => t.insert e.1 e.2) (Table.mk before) = ⟨before ++ rest⟩ := by
    induction rest generalizing before with
    | nil => rw [List.append_nil, List.foldl_nil]
    | cons e rest ih =>
      have hbefore : ∀ e' ∈ before, e'.1 < e.1 := fun e' he' =>
        (List.pairwise_append.mp h).2.2 e' he' e List.mem_cons_self
      rw [List.append_cons] at h ⊢
      rw [List.foldl_cons, insert, insertInto_of_lt hbefore]
      exact ih _ h
  exact hfold [] entries h

theorem sorted_ofList (entries : List (κ × α)) : (ofList entries).Sorted := by
  induction entries using List.reverseRecOn with
  | nil => exact sorted_empty
  | append_singleton entries e ih =>
    rw [ofList_concat]
    exact ih.insert _ _

end Sorted

theorem mem_of_mem_ofList {entries : List (κ × α)} {e : κ × α} (h : e ∈ (ofList entries).entries) :
    e ∈ entries := by
  induction entries using List.reverseRecOn with
  | nil => exact h
  | append_singleton entries first ih =>
    rw [ofList_concat] at h
    obtain rfl | h := mem_insertInto h
    · simp
    · exact List.mem_append_left _ (ih h)

/-- The last entry of a key counts. -/
theorem get?_ofList (entries : List (κ × α)) (key : κ) :
    (ofList entries).get? key = (entries.reverse.find? fun e => e.1 = key).map Prod.snd := by
  induction entries using List.reverseRecOn with
  | nil => rfl
  | append_singleton entries e ih =>
    rw [ofList_concat, get?_insert, ih, List.reverse_concat, List.find?_cons]
    by_cases hkey : key = e.1
    · simp [hkey]
    · simp [hkey, Ne.symm hkey]

end Table

end WorldScript
