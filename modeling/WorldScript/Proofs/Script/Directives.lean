import WorldScript.Proofs.Script.Findings
import WorldScript.Proofs.Script.Typing
import WorldScript.Proofs.Token.Source
import WorldScript.Report

/-! # Directive lines

Directives are looked for on the lines that a reader counts, and the lines that are scanned are the runs
between newlines.  A directive on a line of both kinds is carried out, and then the line is empty when it is
scanned, or it stops the work.  The run after the last newline is a line of the second kind only: the host
can put a directive there, which nobody looks for and which is scanned as it stands.
-/

namespace WorldScript

namespace Directive

variable {text source : String} {replacements : Replacements} {number i : Nat}

theorem ofText_error {line : Nat} {d : Diagnostic} (h : ofText line text = .error d) : d.line = line := by
  unfold ofText at h
  split at h
  · split at h <;> cases h
    rfl
  · cases h
  · cases h
    rfl

/-- What a line says as a directive does not depend on a carriage return at its end. -/
theorem ofText_dropReturn (number : Nat) (line : List Char) :
    (text? (String.ofList (Text.dropReturn line))).map (ofText number) =
      (text? (String.ofList line)).map (ofText number) := by
  obtain hsame | hreturn := Text.dropReturn_eq line
  · rw [hsame]
  · generalize Text.dropReturn line = start at hreturn
    subst hreturn
    have hblank : Text.isBlank '\r' = true := by decide
    simp only [text?, String.toList_ofList, Text.trimStartList, List.dropWhile_append]
    cases start.dropWhile Text.isBlank with
    | nil => simp [hblank]
    | cons c rest =>
      by_cases hc : c = '#'
      · subst hc
        have hsnoc : ofText number (String.ofList (rest ++ ['\r'])) = ofText number (String.ofList rest) := by
          rw [ofText, ofText, Text.words_snoc hblank, Text.trim_snoc hblank]
        exact congrArg some hsnoc.symm
      · simp [hc]

/-- Where all directives can be carried out, those found are the directives of the lines. -/
theorem onLines_ok {lines : List String} {found : List (Nat × Directive)}
    (h : onLines replacements number lines = .ok found) :
    (∀ d ∈ found, d.1 < number + lines.length) ∧
      ∀ (i : Nat) (line text : String), lines[i]? = some line →
        text? ((replacements.lookup (number + i)).getD line) = some text →
        ∃ d, ofText (number + i) text = .ok d ∧ (number + i, d) ∈ found := by
  induction lines generalizing number found with
  | nil =>
    cases h
    simp
  | cons first rest ih =>
    obtain ⟨here, hhere, others, hothers, hfound⟩ : ∃ here, onLine? replacements number first = .ok here ∧
        ∃ others, onLines replacements (number + 1) rest = .ok others ∧
          found = (here.map fun d => (number, d)).toList ++ others := by
      simp only [onLines, bind_ok, pure_ok] at h
      obtain ⟨here, hhere, others, hothers, rfl⟩ := h
      exact ⟨here, hhere, others, hothers, by cases here <;> rfl⟩
    obtain ⟨hbound, hlines⟩ := ih hothers
    subst hfound
    constructor
    · intro d hd
      rw [List.length_cons]
      obtain hd | hd := List.mem_append.mp hd
      · obtain ⟨e, -, rfl⟩ := Option.map_eq_some_iff.mp (Option.mem_toList.mp hd)
        simp
      · have := hbound d hd
        omega
    · intro i line text hline htext
      cases i with
      | zero =>
        obtain rfl : first = line := by simpa using hline
        simp only [onLine?, Nat.add_zero] at hhere htext ⊢
        rw [htext] at hhere
        obtain ⟨d, hd, rfl⟩ := map_ok.mp hhere
        exact ⟨d, hd, by simp⟩
      | succ i =>
        rw [show number + (i + 1) = number + 1 + i by omega] at htext ⊢
        obtain ⟨d, hd, hmem⟩ := hlines i line text (by simpa using hline) htext
        exact ⟨d, hd, List.mem_append_right _ hmem⟩

/-- A directive that cannot be carried out is the first such. -/
theorem onLines_error {lines : List String} {problem : Diagnostic}
    (h : onLines replacements number lines = .error problem) :
    ∃ (i : Nat) (line text : String), lines[i]? = some line ∧
      text? ((replacements.lookup (number + i)).getD line) = some text ∧
        ofText (number + i) text = .error problem ∧
        ∀ j < i, ∀ (line text : String), lines[j]? = some line →
          text? ((replacements.lookup (number + j)).getD line) = some text → ∃ d,
            ofText (number + j) text = .ok d := by
  induction lines generalizing number with
  | nil => cases h
  | cons first rest ih =>
    cases hhere : onLine? replacements number first with
    | error d =>
      obtain rfl : d = problem := by simpa [onLines, hhere, bind, Except.bind] using h
      unfold onLine? at hhere
      split at hhere
      · cases hhere
      · rename_i text htext
        exact ⟨0, first, text, rfl, htext, map_error.mp hhere, by simp⟩
    | ok here =>
      have hrest : onLines replacements (number + 1) rest = .error problem := by
        cases hothers : onLines replacements (number + 1) rest with
        | error d => simpa [onLines, hhere, hothers, bind, Except.bind] using h
        | ok others => simp [onLines, hhere, hothers, bind, Except.bind, pure, Except.pure] at h
      obtain ⟨i, line, text, hline, htext, hproblem, hbefore⟩ := ih hrest
      have hshift (i : Nat) : number + (i + 1) = number + 1 + i := by omega
      refine ⟨i + 1, line, text, by simpa using hline, hshift i ▸ htext, hshift i ▸ hproblem, ?_⟩
      intro j hj line' text' hline' htext'
      cases j with
      | zero =>
        obtain rfl : first = line' := by simpa using hline'
        simp only [onLine?, Nat.add_zero] at hhere htext' ⊢
        rw [htext'] at hhere
        obtain ⟨d, hd, -⟩ := map_ok.mp hhere
        exact ⟨d, hd⟩
      | succ j =>
        rw [hshift] at htext' ⊢
        exact hbefore j (by omega) line' text' (by simpa using hline') htext'

/-- A line of a source that is read as a directive says the same where it is scanned. -/
theorem directive_of_lineText? {line : String} (hline : (Text.lines source)[i]? = some line)
    (htext : lineText? replacements source (i + 1) = some text) :
    (text? ((replacements.lookup (i + 1)).getD line)).map (ofText (i + 1)) =
      (text? text).map (ofText (i + 1)) := by
  obtain ⟨run, hrun, rfl⟩ := Option.map_eq_some_iff.mp htext
  rw [Text.lines_getElem? hrun] at hline
  cases replacements.lookup (i + 1) with
  | some shown => rfl
  | none =>
    rw [Option.getD_none, Option.getD_none]
    split at hline
    · obtain rfl := Option.some.inj hline
      exact ofText_dropReturn _ _
    · split at hline
      · cases hline
      · obtain rfl := Option.some.inj hline
        rfl

/-- A line that is scanned and that no reader counts is the run after the last newline. -/
theorem last_of_lines_le (hline : (Text.lines source).length ≤ i)
    (htext : lineText? replacements source (i + 1) = some text) :
    i + 1 = lastSourceLine source ∧ (Text.splitLines source.toList)[i]? = some [] := by
  obtain ⟨run, hrun, -⟩ := Option.map_eq_some_iff.mp htext
  have hnone := List.getElem?_eq_none hline
  rw [Text.lines_getElem? hrun] at hnone
  have hi := (List.getElem?_eq_some_iff.mp hrun).1
  split at hnone
  · cases hnone
  · rename_i hlast
    split at hnone
    · rename_i hempty
      rw [lastSourceLine]
      exact ⟨by omega, by rw [hrun, List.isEmpty_iff.mp hempty]⟩
    · cases hnone

theorem lineText?_of_counted (replacements : Replacements) (h : i < (Text.lines source).length) :
    ∃ text, lineText? replacements source (i + 1) = some text := by
  have hruns : i < (Text.splitLines source.toList).length :=
    Nat.lt_of_lt_of_le h (Text.lines_length_le source)
  exact ⟨_, by rw [lineText?, List.getElem?_eq_getElem hruns, Option.map_some]⟩

theorem lookup_blank (replacements : Replacements) (found : List (Nat × Directive)) (number : Nat) :
    (blank replacements found).lookup number =
      if number ∈ found.map Prod.fst then some "" else replacements.lookup number := by
  induction found with
  | nil => rfl
  | cons d rest ih =>
    simp only [blank, List.map_cons, List.cons_append, List.lookup_cons, List.mem_cons] at ih ⊢
    by_cases hd : number = d.1
    · simp [hd]
    · have hbeq : (number == d.1) = false := by simpa using hd
      rw [hbeq]
      simpa only [hd, false_or] using ih

theorem lineText?_blank (h : lineText? replacements source number = some text)
    (found : List (Nat × Directive)) :
    lineText? (blank replacements found) source number =
      some (if number ∈ found.map Prod.fst then "" else text) := by
  cases number with
  | zero => cases h
  | succ i =>
    obtain ⟨run, hrun, rfl⟩ := Option.map_eq_some_iff.mp h
    rw [lineText?, hrun, Option.map_some, lookup_blank]
    split <;> rfl

/-- What is found on a line that a reader counts is what is scanned there. -/
theorem exists_counted {said : String} (hline : lineText? replacements source number = some text)
    (hsaid : text? text = some said) (hcounted : number ≤ (Text.lines source).length) :
    ∃ i line read, number = 1 + i ∧ (Text.lines source)[i]? = some line ∧
      text? ((replacements.lookup (1 + i)).getD line) = some read ∧
        ofText (1 + i) read = ofText number said := by
  cases number with
  | zero => cases hline
  | succ i =>
    have hi : i < (Text.lines source).length := hcounted
    have hsame := directive_of_lineText? (List.getElem?_eq_getElem hi) hline
    rw [hsaid, Option.map_some, Option.map_eq_some_iff] at hsame
    obtain ⟨read, hread, heq⟩ := hsame
    rw [Nat.add_comm] at hread heq ⊢
    exact ⟨i, _, read, rfl, List.getElem?_eq_getElem hi, hread, heq⟩

theorem found_iff_counted {said : String} (hline : lineText? replacements source number = some text)
    (hsaid : text? text = some said) {found : List (Nat × Directive)}
    (h : ofSource replacements source = .ok found) :
    ((∃ d, ofText number said = .ok d ∧ (number, d) ∈ found) ↔ number ≤ (Text.lines source).length) ∧
      (number ∈ found.map Prod.fst ↔ number ≤ (Text.lines source).length) := by
  obtain ⟨hbound, hlines⟩ := onLines_ok h
  have hfound (hcounted : number ≤ (Text.lines source).length) :
      ∃ d, ofText number said = .ok d ∧ (number, d) ∈ found := by
    obtain ⟨i, line, read, rfl, hi, hread, heq⟩ := exists_counted hline hsaid hcounted
    rw [← heq]
    exact hlines i line read hi hread
  have hcounted (d : Directive) (hd : (number, d) ∈ found) : number ≤ (Text.lines source).length := by
    have hlt : number < 1 + (Text.lines source).length := hbound _ hd
    omega
  refine ⟨⟨fun ⟨d, _, hd⟩ => hcounted d hd, hfound⟩, fun hmem => ?_, fun h => ?_⟩
  · obtain ⟨⟨_, d⟩, hd, rfl⟩ := List.mem_map.mp hmem
    exact hcounted d hd
  · obtain ⟨d, -, hd⟩ := hfound h
    exact List.mem_map.mpr ⟨_, hd, rfl⟩

theorem refused_first {problem : Diagnostic} (h : ofSource replacements source = .error problem) :
    (∃ first refused, lineText? replacements source problem.line = some first ∧ text? first = some refused ∧
        ofText problem.line refused = .error problem) ∧
      ∀ number text said, lineText? replacements source number = some text → text? text = some said →
        number < problem.line → ∃ d, ofText number said = .ok d := by
  obtain ⟨i, line, read, hi, hread, hrefused, hbefore⟩ := onLines_error h
  have hnumber := ofText_error hrefused
  have hlt := (List.getElem?_eq_some_iff.mp hi).1
  constructor
  · obtain ⟨first, hfirst⟩ := lineText?_of_counted replacements hlt
    have hsame := directive_of_lineText? hi hfirst
    rw [Nat.add_comm] at hsame hfirst
    rw [hread, Option.map_some, hrefused, eq_comm, Option.map_eq_some_iff] at hsame
    obtain ⟨refused, hfirst', hrefused'⟩ := hsame
    rw [hnumber]
    exact ⟨first, refused, hfirst, hfirst', hrefused'⟩
  · intro number text said hline hsaid hless
    obtain ⟨j, line', read', rfl, hj, hread', heq⟩ := exists_counted hline hsaid (by omega)
    rw [← heq]
    exact hbefore j (by omega) line' read' hj hread'

/-- A directive that is scanned was carried out if and only if a reader counts its line.  Then its line
is empty when it is scanned, and otherwise it is scanned as it stands, which happens only to a text that
the host put after the last newline.  Where not all directives can be carried out, the first that cannot
ends the work, and those before it can. -/
theorem carried_out_iff_counted {replacements : Replacements} {source text said : String} {number : Nat}
    (hline : lineText? replacements source number = some text) (hsaid : text? text = some said) :
    (∀ found, ofSource replacements source = .ok found →
        ((∃ d, ofText number said = .ok d ∧ (number, d) ∈ found) ↔ number ≤ (Text.lines source).length) ∧
          ((glyphs (blank replacements found) source).filter fun g => g.line = number).map Glyph.char =
            if number ≤ (Text.lines source).length then ['\n'] else text.toList ++ ['\n']) ∧
      (∀ problem, ofSource replacements source = .error problem →
        (∃ first refused, lineText? replacements source problem.line = some first ∧
          text? first = some refused ∧
            ofText problem.line refused = .error problem) ∧
          (number < problem.line → ∃ d, ofText number said = .ok d) ∧
          ∀ registry options, reported (Script.compile registry options replacements source) = [problem]) ∧
      ((Text.lines source).length < number →
        number = lastSourceLine source ∧ replacements.lookup number = some text) := by
  refine ⟨fun found hfound => ?_, fun problem hproblem => ?_, fun hlast => ?_⟩
  · obtain ⟨hiff, hmem⟩ := found_iff_counted hline hsaid hfound
    refine ⟨hiff, ?_⟩
    rw [glyphs_filter (lineText?_blank hline found), List.map_map]
    by_cases hcounted : number ≤ (Text.lines source).length <;> simp [hmem, hcounted, Function.comp_def]
  · obtain ⟨hfirst, hbefore⟩ := refused_first hproblem
    refine ⟨hfirst, hbefore number text said hline hsaid, fun registry options => ?_⟩
    have hfindings : Script.findings registry options.visibility replacements source = [problem] := by
      rw [Script.findings, hproblem]
    rw [Script.compile_reported, hfindings]
    exact List.take_of_length_le options.limit_pos
  · cases number with
    | zero => cases hline
    | succ i =>
      obtain ⟨hlastLine, hrun⟩ := last_of_lines_le (by omega) hline
      refine ⟨hlastLine, ?_⟩
      -- an empty line is no directive, so the text is a replacement
      rw [lineText?, hrun, Option.map_some, Option.some.injEq] at hline
      cases hlookup : replacements.lookup (i + 1) with
      | some shown => rw [← hline, hlookup, Option.getD_some]
      | none =>
        rw [hlookup, Option.getD_none] at hline
        subst hline
        cases hsaid

end Directive

namespace Sample

def ended : String := "default \x7b \x7d\n"

def trailing : Replacements := [(2, "#dialect lsl")]

end Sample

/-- Nobody looks for the directive after the last newline, and it is scanned. -/
theorem Directive.trailing_scanned :
    lineText? Sample.trailing Sample.ended 2 = some "#dialect lsl" ∧
      text? "#dialect lsl" = some "dialect lsl" ∧
      ofSource Sample.trailing Sample.ended = .ok [] ∧
      ((glyphs (blank Sample.trailing []) Sample.ended).filter fun g => g.line = 2).map Glyph.char =
        "#dialect lsl\n".toList := by
  have hline : lineText? Sample.trailing Sample.ended 2 = some "#dialect lsl" := by decide +kernel
  have hsaid : text? "#dialect lsl" = some "dialect lsl" := by decide +kernel
  have hsource : ofSource Sample.trailing Sample.ended = .ok [] := by rfl
  refine ⟨hline, hsaid, hsource, ?_⟩
  rw [((carried_out_iff_counted hline hsaid).1 [] hsource).2]
  decide +kernel

/-- The script is refused for the first character of that directive; without the directive it can be
compiled. -/
theorem Script.trailing_refused :
    lineText? Sample.trailing Sample.ended 2 = some "#dialect lsl" ∧
      Directive.text? "#dialect lsl" = some "dialect lsl" ∧ (∃ d, Directive.ofText 2 "dialect lsl" = .ok d) ∧
      (reported (check Sample.registry Sample.options Sample.trailing Sample.ended)).map Diagnostic.entry =
        [⟨.lexical, 2, "unexpected character '#'"⟩] ∧
      (check Sample.registry Sample.options [] Sample.ended).isOk = true := by
  refine ⟨?_, ?_, ok_of_isOk ?_, ?_, ?_⟩ <;> decide +kernel

end WorldScript
