import Mathlib.Data.List.Count
import WorldScript.Proofs.Text.Lines
import WorldScript.Token.Source

/-! # Lines of a scanned source

The characters of a line are those of its replacement, or of the source where there is none, and a newline.
As long as no replacement holds a newline of its own, the line of a character is one more than the number of
newlines before it.
-/

namespace WorldScript

variable {replacements : Replacements} {runs : List (List Char)}

def lineText? (replacements : Replacements) (source : String) : Nat → Option String
  | 0 => none
  | i + 1 => (Text.splitLines source.toList)[i]?.map fun run =>
    (replacements.lookup (i + 1)).getD (String.ofList run)

theorem glyphsFrom_line {number : Nat} {g : Glyph} (h : g ∈ glyphsFrom replacements number runs) :
    number ≤ g.line := by
  induction runs generalizing number with
  | nil => cases h
  | cons run rest ih =>
    obtain h | h := List.mem_append.mp h
    · obtain ⟨c, -, rfl⟩ := List.mem_map.mp h
      exact Nat.le_refl _
    · exact Nat.le_of_succ_le (ih h)

theorem lineGlyphs_filter (replacements : Replacements) (number other : Nat) (run : List Char) :
    (lineGlyphs replacements number run).filter (fun g => g.line = other) =
      if number = other then lineGlyphs replacements number run else [] := by
  split
  · rename_i h
    exact List.filter_eq_self.mpr fun g hg => by
      obtain ⟨c, -, rfl⟩ := List.mem_map.mp hg
      simpa using h
  · rename_i h
    exact List.filter_eq_nil_iff.mpr fun g hg => by
      obtain ⟨c, -, rfl⟩ := List.mem_map.mp hg
      simpa using h

theorem glyphsFrom_filter (replacements : Replacements) (number : Nat) {i : Nat} {run : List Char}
    (h : runs[i]? = some run) :
    (glyphsFrom replacements number runs).filter (fun g => g.line = number + i) =
      lineGlyphs replacements (number + i) run := by
  induction runs generalizing number i with
  | nil => simp at h
  | cons first rest ih =>
    rw [glyphsFrom, List.filter_append, lineGlyphs_filter]
    cases i with
    | zero =>
      obtain rfl : first = run := by simpa using h
      have hlater : (glyphsFrom replacements (number + 1) rest).filter (fun g => g.line = number) = [] := by
        refine List.filter_eq_nil_iff.mpr fun g hg => ?_
        have := glyphsFrom_line hg
        simp
        omega
      simp [hlater]
    | succ i =>
      rw [if_neg (by omega), List.nil_append, show number + (i + 1) = number + 1 + i by omega]
      exact ih _ (by simpa using h)

/-- The characters of a line. -/
theorem glyphs_filter {source : String} {number : Nat} {text : String}
    (h : lineText? replacements source number = some text) :
    (glyphs replacements source).filter (fun g => g.line = number) =
      (text.toList ++ ['\n']).map fun c => ⟨c, number⟩ := by
  cases number with
  | zero => cases h
  | succ i =>
    obtain ⟨run, hrun, rfl⟩ := Option.map_eq_some_iff.mp h
    have hline := glyphsFrom_filter replacements 1 hrun
    rw [Nat.add_comm] at hline
    rw [glyphs, hline, lineGlyphs]
    cases replacements.lookup (i + 1) <;> simp

def numbered (number : Nat) : List Char → List Glyph
  | [] => []
  | c :: rest => ⟨c, number⟩ :: numbered (if c = '\n' then number + 1 else number) rest

theorem numbered_char (number : Nat) (chars : List Char) :
    (numbered number chars).map Glyph.char = chars := by
  induction chars generalizing number with
  | nil => rfl
  | cons c rest ih => rw [numbered, List.map_cons, ih]

theorem numbered_append (number : Nat) (front back : List Char) :
    numbered number (front ++ back) = numbered number front ++ numbered (number + front.count '\n') back := by
  induction front generalizing number with
  | nil => rfl
  | cons c front ih =>
    rw [List.cons_append, numbered, numbered, ih, List.cons_append, List.count_cons]
    congr 3
    by_cases hc : c = '\n'
    · simp [hc]
      omega
    · simp [hc]

theorem numbered_flat (number : Nat) {chars : List Char} (h : '\n' ∉ chars) :
    numbered number chars = chars.map fun c => ⟨c, number⟩ := by
  induction chars with
  | nil => rfl
  | cons c rest ih =>
    rw [List.mem_cons, not_or] at h
    rw [numbered, if_neg (Ne.symm h.1), ih h.2, List.map_cons]

def stream (replacements : Replacements) (source : String) : List Char :=
  (glyphs replacements source).map Glyph.char

theorem lineGlyphs_numbered (hflat : ∀ entry ∈ replacements, '\n' ∉ entry.2.toList) (number : Nat)
    {run : List Char} (hrun : '\n' ∉ run) :
    ∃ shown, '\n' ∉ shown ∧ lineGlyphs replacements number run = numbered number (shown ++ ['\n']) := by
  have hshown : '\n' ∉ ((replacements.lookup number).map String.toList).getD run := by
    cases hlookup : replacements.lookup number with
    | none => exact hrun
    | some text =>
      obtain ⟨front, back, rfl, -⟩ := List.lookup_eq_some_iff.mp hlookup
      exact hflat (number, text) (by simp)
  refine ⟨_, hshown, ?_⟩
  rw [lineGlyphs, numbered_append, numbered_flat number hshown, List.count_eq_zero.mpr hshown,
    List.map_append]
  rfl

theorem glyphsFrom_numbered (hflat : ∀ entry ∈ replacements, '\n' ∉ entry.2.toList) (number : Nat)
    (hruns : ∀ run ∈ runs, '\n' ∉ run) :
    glyphsFrom replacements number runs = numbered number
      ((glyphsFrom replacements number runs).map Glyph.char) := by
  induction runs generalizing number with
  | nil => rfl
  | cons run rest ih =>
    rw [List.forall_mem_cons] at hruns
    obtain ⟨shown, hshown, hline⟩ := lineGlyphs_numbered hflat number hruns.1
    have hcount : (shown ++ ['\n']).count '\n' = 1 := by simp [List.count_eq_zero.mpr hshown]
    rw [glyphsFrom, hline, List.map_append, numbered_char, numbered_append number (shown ++ _), hcount,
      ← ih _ hruns.2]

/-- Where no replacement holds a newline, the line of a character is one more than the newlines before it. -/
theorem glyphs_numbered (hflat : ∀ entry ∈ replacements, '\n' ∉ entry.2.toList) (source : String) :
    glyphs replacements source = numbered 1 (stream replacements source) :=
  glyphsFrom_numbered hflat 1 fun _ => Text.splitLines_flat

/-- Without replacements the source itself is scanned, and a newline after it. -/
theorem stream_nil (source : String) : stream [] source = source.toList ++ ['\n'] := by
  have hchars (number : Nat) (chars : List Char) :
      (glyphsFrom [] number (Text.splitLines chars)).map Glyph.char = chars ++ ['\n'] := by
    induction chars generalizing number with
    | nil => rfl
    | cons c rest ih =>
      rw [Text.splitLines]
      split
      · rename_i hc
        rw [glyphsFrom, List.map_append, ih, hc]
        rfl
      · split
        · rename_i hnil
          exact absurd hnil (Text.splitLines_ne_nil rest)
        · rename_i line lines hrest
          have hih := ih number
          rw [hrest, glyphsFrom, List.map_append] at hih
          rw [glyphsFrom, List.map_append, List.cons_append, ← hih]
          rfl
  exact hchars 1 source.toList

/-- The last character that is scanned is a newline. -/
theorem stream_ended (replacements : Replacements) (source : String) :
    ∃ front, stream replacements source = front ++ ['\n'] := by
  have hchars (number : Nat) {runs : List (List Char)} (hne : runs ≠ []) :
      ∃ front, (glyphsFrom replacements number runs).map Glyph.char = front ++ ['\n'] := by
    induction runs generalizing number with
    | nil => exact absurd rfl hne
    | cons run rest ih =>
      rw [glyphsFrom, List.map_append]
      cases rest with
      | nil => exact ⟨_, by simp [glyphsFrom, lineGlyphs]; rfl⟩
      | cons next rest =>
        obtain ⟨front, hfront⟩ := ih (number + 1) (List.cons_ne_nil _ _)
        exact ⟨_ ++ front, by rw [hfront, List.append_assoc]⟩
  exact hchars 1 (Text.splitLines_ne_nil source.toList)

end WorldScript
