import WorldScript.Text.Blank

/-! # Two ways to cut a text into lines

A text is cut at its newlines, or read line by line as a reader counts lines.  The first way has one line
more when nothing follows the last newline, and otherwise the two differ in carriage returns only.
-/

namespace WorldScript.Text

theorem splitLines_ne_nil (text : List Char) : splitLines text ≠ [] := by
  fun_cases splitLines text <;> simp_all

theorem piecesFrom_snoc {isSeparator : Char → Bool} {c : Char} (hc : isSeparator c = true)
    (piece text : List Char) :
    piecesFrom isSeparator piece (text ++ [c]) = piecesFrom isSeparator piece text := by
  induction text generalizing piece with
  | nil => simp [piecesFrom, hc]
  | cons a rest ih => simp [piecesFrom, ih]

/-- A blank at the end of a text belongs to no word. -/
theorem words_snoc {c : Char} (hc : isBlank c = true) (text : List Char) :
    words (String.ofList (text ++ [c])) = words (String.ofList text) := by
  simp only [words, pieces, String.toList_ofList, piecesFrom_snoc hc]

theorem trim_snoc {c : Char} (hc : isBlank c = true) (text : List Char) :
    trim (String.ofList (text ++ [c])) = trim (String.ofList text) := by
  simp only [trim, trimEnd, trimStart, trimEndList, trimStartList, String.toList_ofList,
    List.dropWhile_append]
  split
  · rename_i hempty
    rw [List.isEmpty_iff.mp hempty, List.dropWhile_cons_of_pos hc]
    rfl
  · rw [List.reverse_append, List.reverse_singleton, List.singleton_append, List.dropWhile_cons_of_pos hc]

theorem dropReturn_eq (line : List Char) : dropReturn line = line ∨ line = dropReturn line ++ ['\r'] := by
  unfold dropReturn
  split
  · rename_i hlast
    obtain ⟨start, rfl⟩ := List.getLast?_eq_some_iff.mp hlast
    exact .inr (by rw [List.dropLast_concat])
  · exact .inl rfl

/-- The lines that a reader counts, by the runs between newlines. -/
theorem lines_getElem? {source : String} {i : Nat} {run : List Char}
    (h : (splitLines source.toList)[i]? = some run) :
    (lines source)[i]? = if i + 1 < (splitLines source.toList).length
      then some (String.ofList (dropReturn run))
      else if run.isEmpty then none else some (String.ofList run) := by
  have hruns := (List.dropLast_concat_getLast (splitLines_ne_nil source.toList)).symm
  unfold lines
  generalize (splitLines source.toList).dropLast = start at hruns
  generalize (splitLines source.toList).getLast _ = last at hruns
  rw [hruns] at h
  simp only [hruns, List.dropLast_concat, List.getLast?_concat, Option.getD_some, List.length_append,
    List.length_singleton]
  have hi := (List.getElem?_eq_some_iff.mp h).1
  rw [List.length_append, List.length_singleton] at hi
  by_cases hend : i < start.length
  · rw [List.getElem?_append_left hend] at h
    obtain ⟨-, rfl⟩ := List.getElem?_eq_some_iff.mp h
    have hbefore : i + 1 < start.length + 1 := by omega
    simp only [hbefore, if_true, List.getElem?_map]
    split <;> simp [hend, List.getElem?_append]
  · obtain rfl : i = start.length := by omega
    rw [List.getElem?_concat_length] at h
    cases h
    simp only [Nat.lt_irrefl, if_false, List.getElem?_map]
    split <;> simp

theorem lines_length_le (source : String) : (lines source).length ≤ (splitLines source.toList).length := by
  have hlength := List.length_pos_iff.mpr (splitLines_ne_nil source.toList)
  unfold lines
  dsimp only
  split
  · simp
  · simp
    omega

theorem splitLines_flat {text run : List Char} (h : run ∈ splitLines text) : '\n' ∉ run := by
  fun_induction splitLines text generalizing run with
  | case1 =>
    obtain rfl := List.mem_singleton.mp h
    exact List.not_mem_nil
  | case2 rest ih =>
    obtain rfl | h := List.mem_cons.mp h
    · exact List.not_mem_nil
    · exact ih h
  | case3 c rest _ hnil => exact absurd hnil (splitLines_ne_nil rest)
  | case4 c rest hc line lines hrest ih =>
    rw [hrest] at ih
    obtain rfl | h := List.mem_cons.mp h
    · exact fun hmem => (List.mem_cons.mp hmem).elim (Ne.symm hc) (ih List.mem_cons_self)
    · exact ih (List.mem_cons_of_mem _ h)

theorem subset_of_mem_splitLines {text run : List Char} (h : run ∈ splitLines text) : run ⊆ text := by
  fun_induction splitLines text generalizing run with
  | case1 =>
    rw [List.mem_singleton.mp h]
    exact List.Subset.refl []
  | case2 rest ih =>
    obtain rfl | h := List.mem_cons.mp h
    · exact List.nil_subset _
    · exact List.subset_cons_of_subset _ (ih h)
  | case3 c rest _ hnil => exact absurd hnil (splitLines_ne_nil rest)
  | case4 c rest hc line lines hrest ih =>
    rw [hrest] at ih
    obtain rfl | h := List.mem_cons.mp h
    · exact List.cons_subset_cons _ (ih List.mem_cons_self)
    · exact List.subset_cons_of_subset _ (ih (List.mem_cons_of_mem _ h))

theorem toList_subset_of_mem_lines {source line : String} (h : line ∈ lines source) :
    line.toList ⊆ source.toList := by
  obtain ⟨i, hi⟩ := List.mem_iff_getElem?.mp h
  have hlt := (List.getElem?_eq_some_iff.mp hi).1
  obtain ⟨run, hrun⟩ : ∃ run, (splitLines source.toList)[i]? = some run :=
    ⟨_, List.getElem?_eq_getElem (Nat.lt_of_lt_of_le hlt (lines_length_le source))⟩
  have hsource := subset_of_mem_splitLines (List.mem_of_getElem? hrun)
  rw [lines_getElem? hrun] at hi
  split at hi
  · cases hi
    rw [String.toList_ofList]
    obtain hsame | hreturn := dropReturn_eq run
    · rwa [hsame]
    · rw [hreturn] at hsource
      exact fun c hc => hsource (List.mem_append_left _ hc)
  · split at hi <;> cases hi
    rwa [String.toList_ofList]

end WorldScript.Text
