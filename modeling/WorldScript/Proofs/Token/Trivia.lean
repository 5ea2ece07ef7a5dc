import Mathlib.Data.List.Infix
import WorldScript.Token.Scan

/-! # Gaps between tokens

A gap is a run of blanks and comments.  Skipping passes over a gap as a whole and stops at the first character
that starts neither a blank nor a comment, so that what is skipped is the longest gap.
-/

namespace WorldScript.Scan

/-- Blanks and comments.  A comment goes to the newline that ends its line, or to the first star before a
slash. -/
inductive Gap : List Char → Prop
  | nil : Gap []
  | blank {c : Char} {rest : List Char} (hc : Text.isBlank c = true) (h : Gap rest) : Gap (c :: rest)
  | lineComment {body rest : List Char} (hbody : '\n' ∉ body) (h : Gap rest) :
    Gap ('/' :: '/' :: (body ++ '\n' :: rest))
  | blockComment {body rest : List Char} (hbody : ¬ ['*', '/'] <:+: body) (h : Gap rest) :
    Gap ('/' :: '*' :: (body ++ '*' :: '/' :: rest))

theorem Gap.append {a b : List Char} (ha : Gap a) (hb : Gap b) : Gap (a ++ b) := by
  induction ha with
  | nil => exact hb
  | blank hc _ ih => exact .blank hc ih
  | lineComment hbody _ ih => simpa using Gap.lineComment hbody ih
  | blockComment hbody _ ih => simpa using Gap.blockComment hbody ih

def startsSolid : List Char → Bool
  | [] => true
  | c :: rest => !Text.isBlank c && !(c = '/' && (rest.head? = some '/' || rest.head? = some '*'))

theorem startsSolid_cons {c : Char} {rest : List Char} :
    startsSolid (c :: rest) = true ↔
      Text.isBlank c = false ∧ (c = '/' → rest.head? ≠ some '/' ∧ rest.head? ≠ some '*') := by
  simp only [startsSolid, Bool.and_eq_true, Bool.not_eq_true', Bool.and_eq_false_iff, Bool.or_eq_false_iff,
    decide_eq_false_iff_not, ne_eq]
  exact Iff.and .rfl (by rw [← Decidable.imp_iff_not_or])

theorem skipTrivia_line {body : List Glyph} (h : '\n' ∉ body.map Glyph.char) (line : Nat)
    (rest : List Glyph) :
    skipTrivia .lineComment (body ++ ⟨'\n', line⟩ :: rest) = skipTrivia .blank rest := by
  induction body with
  | nil => simp [skipTrivia]
  | cons g body ih =>
    rw [List.map_cons, List.mem_cons, not_or] at h
    rw [List.cons_append, skipTrivia, if_neg (Ne.symm h.1)]
    exact ih h.2

theorem skipTrivia_block {body : List Glyph} (h : ¬ ['*', '/'] <:+: body.map Glyph.char)
    (start line line' : Nat) (rest : List Glyph) :
    skipTrivia (.blockComment start) (body ++ ⟨'*', line⟩ :: ⟨'/', line'⟩ :: rest) =
      skipTrivia .blank rest := by
  induction body with
  | nil => simp [skipTrivia]
  | cons g body ih =>
    rw [List.map_cons, List.infix_cons_iff, not_or] at h
    rw [List.cons_append, skipTrivia]
    · exact ih h.2
    · intro star slash after hstar hslash
      subst hstar
      cases body with
      | nil => simp at hslash
      | cons next body =>
        obtain ⟨rfl, -⟩ := List.cons.inj hslash
        exact h.1 (by simp)

theorem skipTrivia_blank {g : Glyph} (hg : Text.isBlank g.char = true) (rest : List Glyph) :
    skipTrivia .blank (g :: rest) = skipTrivia .blank rest := by
  rw [skipTrivia, if_pos hg]
  all_goals
    rintro _ _ _ rfl
    exact absurd hg (show ¬ Text.isBlank '/' = true by decide)

theorem skipTrivia_gap {gap : List Glyph} (h : Gap (gap.map Glyph.char)) (rest : List Glyph) :
    skipTrivia .blank (gap ++ rest) = skipTrivia .blank rest := by
  generalize hchars : gap.map Glyph.char = chars at h
  induction h generalizing gap with
  | nil =>
    rw [List.map_eq_nil_iff.mp hchars]
    rfl
  | blank hc _ ih =>
    obtain ⟨g, later, rfl, rfl, hlater⟩ := List.map_eq_cons_iff.mp hchars
    rw [List.cons_append, skipTrivia_blank hc]
    exact ih hlater
  | lineComment hbody _ ih =>
    obtain ⟨⟨_, _⟩, tail, rfl, rfl, htail⟩ := List.map_eq_cons_iff.mp hchars
    obtain ⟨⟨_, _⟩, comment, rfl, rfl, hcomment⟩ := List.map_eq_cons_iff.mp htail
    obtain ⟨inside, ended, rfl, rfl, hended⟩ := List.map_eq_append_iff.mp hcomment
    obtain ⟨⟨_, _⟩, later, rfl, rfl, hlater⟩ := List.map_eq_cons_iff.mp hended
    simp only [List.cons_append, List.append_assoc, skipTrivia, skipTrivia_line hbody]
    exact ih hlater
  | blockComment hbody _ ih =>
    obtain ⟨⟨_, _⟩, tail, rfl, rfl, htail⟩ := List.map_eq_cons_iff.mp hchars
    obtain ⟨⟨_, _⟩, comment, rfl, rfl, hcomment⟩ := List.map_eq_cons_iff.mp htail
    obtain ⟨inside, ended, rfl, rfl, hended⟩ := List.map_eq_append_iff.mp hcomment
    obtain ⟨⟨_, _⟩, closed, rfl, rfl, hclosed⟩ := List.map_eq_cons_iff.mp hended
    obtain ⟨⟨_, _⟩, later, rfl, rfl, hlater⟩ := List.map_eq_cons_iff.mp hclosed
    simp only [List.cons_append, List.append_assoc, skipTrivia, skipTrivia_block hbody]
    exact ih hlater

theorem skipTrivia_solid {rest : List Glyph} (h : startsSolid (rest.map Glyph.char) = true) :
    skipTrivia .blank rest = .ok rest := by
  cases rest with
  | nil => rfl
  | cons g rest =>
    obtain ⟨hblank, hslash⟩ := startsSolid_cons.mp h
    rw [skipTrivia, if_neg (by simp [hblank])]
    · rintro _ _ _ rfl rfl
      exact (hslash rfl).1 rfl
    · rintro _ _ _ rfl rfl
      exact (hslash rfl).2 rfl

def Trivia.Covers : Trivia → List Char → Prop
  | .blank, gap => Gap gap
  | .lineComment, gap => ∃ body rest, '\n' ∉ body ∧ Gap rest ∧ gap = body ++ '\n' :: rest
  | .blockComment _, gap => ∃ body rest, ¬ ['*', '/'] <:+: body ∧ Gap rest ∧ gap = body ++ '*' :: '/' :: rest

def Ended (chars : List Char) : Prop := ∀ c ∈ chars.getLast?, c = '\n'

theorem Ended.tail {c : Char} {chars : List Char} (h : Ended (c :: chars)) : Ended chars := by
  cases chars with
  | nil => simp [Ended]
  | cons next chars => simpa [Ended] using h

def Trivia.Open : Trivia → List Glyph → Prop
  | .lineComment, gs => gs ≠ []
  | _, _ => True

theorem startsSolid_of_stop {g : Glyph} {after : List Glyph} (hblank : Text.isBlank g.char = false)
    (hline : ∀ line line' rest, g = ⟨'/', line⟩ → after = ⟨'/', line'⟩ :: rest → False)
    (hblock : ∀ line line' rest, g = ⟨'/', line⟩ → after = ⟨'*', line'⟩ :: rest → False) :
    startsSolid ((g :: after).map Glyph.char) = true := by
  refine startsSolid_cons.mpr ⟨hblank, fun hc => ?_⟩
  obtain ⟨_, line⟩ := g
  subst hc
  rw [List.head?_map]
  constructor <;> intro hnext
  · obtain ⟨⟨_, line'⟩, hhead, rfl⟩ := Option.map_eq_some_iff.mp hnext
    exact hline line line' after.tail rfl (List.eq_cons_of_mem_head? hhead)
  · obtain ⟨⟨_, line'⟩, hhead, rfl⟩ := Option.map_eq_some_iff.mp hnext
    exact hblock line line' after.tail rfl (List.eq_cons_of_mem_head? hhead)

/-- What is skipped is a gap, and no longer one is there. -/
theorem skipTrivia_split {t : Trivia} {gs rest : List Glyph} (h : skipTrivia t gs = .ok rest)
    (hend : Ended (gs.map Glyph.char)) (ht : t.Open gs) :
    ∃ gap, gs = gap ++ rest ∧ t.Covers (gap.map Glyph.char) ∧ startsSolid (rest.map Glyph.char) = true := by
  fun_induction skipTrivia t gs with
  | case1 line line' after ih =>
    have hafter : after ≠ [] := by
      rintro rfl
      simp [Ended] at hend
    obtain ⟨gap, rfl, ⟨body, later, hbody, hlater, hgap⟩, hrest⟩ := ih h hend.tail.tail hafter
    refine ⟨⟨'/', line⟩ :: ⟨'/', line'⟩ :: gap, rfl, ?_, hrest⟩
    simp only [Trivia.Covers, List.map_cons, hgap]
    exact .lineComment hbody hlater
  | case2 line line' after ih =>
    obtain ⟨gap, rfl, ⟨body, later, hbody, hlater, hgap⟩, hrest⟩ := ih h hend.tail.tail trivial
    refine ⟨⟨'/', line⟩ :: ⟨'*', line'⟩ :: gap, rfl, ?_, hrest⟩
    simp only [Trivia.Covers, List.map_cons, hgap]
    exact .blockComment hbody hlater
  | case3 g after _ _ hg ih =>
    obtain ⟨gap, rfl, hgap, hrest⟩ := ih h hend.tail trivial
    exact ⟨g :: gap, rfl, .blank hg hgap, hrest⟩
  | case4 g after hline hblock hg =>
    obtain rfl := Except.ok.inj h
    exact ⟨[], rfl, .nil, startsSolid_of_stop (by simpa using hg) hline hblock⟩
  | case5 g after hg ih =>
    obtain ⟨gap, rfl, hgap, hrest⟩ := ih h hend.tail trivial
    exact ⟨g :: gap, rfl, ⟨[], gap.map Glyph.char, by simp, hgap, by simp [hg]⟩, hrest⟩
  | case6 g after hg ih =>
    have hafter : after ≠ [] := by
      rintro rfl
      exact hg (hend g.char rfl)
    obtain ⟨gap, rfl, ⟨body, later, hbody, hlater, hgap⟩, hrest⟩ := ih h hend.tail hafter
    refine ⟨g :: gap, rfl, ⟨g.char :: body, later, ?_, hlater, by simp [hgap]⟩, hrest⟩
    simpa [Ne.symm hg] using hbody
  | case7 start line line' after ih =>
    obtain ⟨gap, rfl, hgap, hrest⟩ := ih h hend.tail.tail trivial
    exact ⟨⟨'*', line⟩ :: ⟨'/', line'⟩ :: gap, rfl, ⟨[], gap.map Glyph.char, by simp, hgap, by simp⟩, hrest⟩
  | case8 start g after hopen ih =>
    obtain ⟨gap, rfl, ⟨body, later, hbody, hlater, hgap⟩, hrest⟩ := ih h hend.tail trivial
    refine ⟨g :: gap, rfl, ⟨g.char :: body, later, ?_, hlater, by simp [hgap]⟩, hrest⟩
    -- The comment does not end here, so its body does not start with a star and a slash.
    rw [List.infix_cons_iff, not_or]
    refine ⟨?_, hbody⟩
    rintro ⟨tail, htail⟩
    obtain ⟨c, line⟩ := g
    obtain ⟨rfl, rfl⟩ := List.cons.inj htail
    obtain ⟨⟨_, line'⟩, gap, rfl, rfl, -⟩ := List.map_eq_cons_iff.mp hgap
    exact hopen _ _ _ rfl rfl
  | case9 start => cases h
  | case10 t hopen =>
    obtain rfl := Except.ok.inj h
    cases t with
    | blank => exact ⟨[], rfl, .nil, rfl⟩
    | lineComment => exact absurd rfl ht
    | blockComment start => exact absurd rfl (hopen start)

end WorldScript.Scan
