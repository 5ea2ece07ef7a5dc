import WorldScript.Proofs.Token.Lexeme
import WorldScript.Proofs.Token.Source
import WorldScript.Proofs.Token.Trivia

/-! # Cutting a source into tokens

A text is cut into gaps and spans: the spans spell its tokens, none of them could be longer, and each
token is on the line that the newlines before its span tell.  A source is scanned without error exactly
if it can be cut, and then into just those tokens.
-/

namespace WorldScript.Scan

variable {gs rest : List Glyph} {t : Token} {tokens : List Token} {number : Nat} {text : List Char}

inductive Cut : List Char → List Char → List Token → Prop
  | done {before trail : List Char} (h : Gap trail) : Cut before trail []
  | token {before gap span after : List Char} {t : Token} {tokens : List Token} (hgap : Gap gap)
    (hsolid : startsSolid (span ++ after) = true) (hspan : Spells t.kind t.text span)
    (hmunched : Munched t.kind span after) (hline : t.line = 1 + (before ++ gap).count '\n')
    (hrest : Cut (before ++ gap ++ span) after tokens) : Cut before (gap ++ (span ++ after)) (t :: tokens)

/-- The next token and the characters after it, or none if there are only blanks and comments. -/
def next (gs : List Glyph) : Except Diagnostic (Option (Token × List Glyph)) := do
  match ← skipTrivia .blank gs with
  | [] => return none
  | g :: rest =>
    let found ← lexeme g.line g.char (rest.map Glyph.char)
    return some (⟨found.kind, found.text, g.line⟩, rest.drop found.size)

theorem next_eq_none : next gs = .ok none ↔ skipTrivia .blank gs = .ok [] := by
  rw [next, bind_ok]
  constructor
  · rintro ⟨_ | ⟨g, rest⟩, hskip, h⟩
    · exact hskip
    · obtain ⟨found, -, h⟩ := bind_ok.mp h
      cases h
  · exact fun hskip => ⟨[], hskip, rfl⟩

theorem next_eq_some :
    next gs = .ok (some (t, rest)) ↔
      ∃ g tail found, skipTrivia .blank gs = .ok (g :: tail) ∧
        lexeme g.line g.char (tail.map Glyph.char) = .ok found ∧
        t = ⟨found.kind, found.text, g.line⟩ ∧ rest = tail.drop found.size := by
  rw [next, bind_ok]
  constructor
  · rintro ⟨_ | ⟨g, tail⟩, hskip, h⟩
    · cases h
    · obtain ⟨found, hfound, h⟩ := bind_ok.mp h
      cases h
      exact ⟨g, tail, found, hskip, hfound, rfl, rfl⟩
  · rintro ⟨g, tail, found, hskip, hfound, rfl, rfl⟩
    exact ⟨g :: tail, hskip, bind_ok.mpr ⟨found, hfound, rfl⟩⟩

theorem skipTrivia_suffix {t : Trivia} (h : skipTrivia t gs = .ok rest) : rest <:+ gs := by
  fun_induction skipTrivia t gs with
  | case1 _ _ after ih | case2 _ _ after ih | case7 _ _ _ after ih =>
    exact (ih h).trans ((List.suffix_cons _ after).trans (List.suffix_cons _ _))
  | case3 g after _ _ _ ih | case5 g after _ ih | case6 g after _ ih | case8 _ g after _ ih =>
    exact (ih h).trans (List.suffix_cons g after)
  | case4 | case10 => exact Except.ok.inj h ▸ List.suffix_rfl
  | case9 => cases h

/-- A token takes at least one character. -/
theorem next_advances (h : next gs = .ok (some (t, rest))) : ∃ used, used ≠ [] ∧ gs = used ++ rest := by
  obtain ⟨g, tail, found, hskip, -, -, rfl⟩ := next_eq_some.mp h
  obtain ⟨gap, rfl⟩ := skipTrivia_suffix hskip
  exact ⟨gap ++ g :: tail.take found.size, by simp, by simp⟩

/-- A scan takes token after token, up to the first that is malformed. -/
inductive Scans : List Glyph → List Token → Option Diagnostic → Prop
  | done {gs : List Glyph} (h : next gs = .ok none) : Scans gs [] none
  | stop {gs : List Glyph} {d : Diagnostic} (h : next gs = .error d) : Scans gs [] (some d)
  | token {gs rest : List Glyph} {t : Token} {tokens : List Token} {stop : Option Diagnostic}
    (h : next gs = .ok (some (t, rest))) (hrest : Scans rest tokens stop) : Scans gs (t :: tokens) stop

theorem scans_tokensFrom (gs : List Glyph) : Scans gs (tokensFrom gs).1 (tokensFrom gs).2 := by
  fun_induction tokensFrom gs with
  | case1 gs d h => exact .stop (by simp [next, h, bind, Except.bind])
  | case2 gs h => exact .done (next_eq_none.mpr h)
  | case3 gs g rest h d hlexeme => exact .stop (by simp [next, h, hlexeme, bind, Except.bind])
  | case4 gs g rest h found hlexeme _ tokens stop hrest ih =>
    rw [hrest] at ih
    exact .token (next_eq_some.mpr ⟨g, rest, found, h, hlexeme, rfl, rfl⟩) ih

theorem Scans.unique {tokens' : List Token} {stop stop' : Option Diagnostic} (h : Scans gs tokens stop)
    (h' : Scans gs tokens' stop') : tokens = tokens' ∧ stop = stop' := by
  induction h generalizing tokens' stop' with
  | done hn => cases h' <;> simp_all
  | stop hn => cases h' <;> simp_all
  | token hn _ ih =>
    cases h' with
    | done hn' => simp [hn] at hn'
    | stop hn' => simp [hn] at hn'
    | token hn' hrest' =>
      obtain ⟨rfl, rfl⟩ : _ = _ ∧ _ = _ := by simpa [hn] using hn'
      obtain ⟨rfl, rfl⟩ := ih hrest'
      exact ⟨rfl, rfl⟩

theorem tokenize_ok_iff {replacements : Replacements} {source : String} :
    tokenize replacements source = .ok tokens ↔ Scans (glyphs replacements source) tokens none := by
  have hscan := scans_tokensFrom (glyphs replacements source)
  rw [← scan] at hscan
  rw [tokenize]
  constructor
  · intro h
    split at h
    · rename_i tokens' hpair
      obtain rfl := Except.ok.inj h
      rwa [hpair] at hscan
    · cases h
  · intro h
    obtain ⟨htokens, hstop⟩ := hscan.unique h
    rw [show scan replacements source = (tokens, none) from Prod.ext htokens hstop]

theorem numbered_split {front back : List Glyph} (h : numbered number text = front ++ back) :
    ∃ chars after, text = chars ++ after ∧ front = numbered number chars ∧
      back = numbered (number + chars.count '\n') after := by
  have htext : text = front.map Glyph.char ++ back.map Glyph.char := by
    rw [← List.map_append, ← h, numbered_char]
  refine ⟨_, _, htext, ?_⟩
  rw [htext, numbered_append] at h
  have hlength : (numbered number (front.map Glyph.char)).length = front.length := by
    rw [← List.length_map Glyph.char, numbered_char, List.length_map]
  obtain ⟨hfront, hback⟩ := List.append_inj h hlength
  exact ⟨hfront.symm, hback.symm⟩

theorem numbered_drop (number : Nat) (front back : List Char) :
    (numbered number (front ++ back)).drop front.length = numbered (number + front.count '\n') back := by
  have hlength : front.length = (numbered number front).length := by
    rw [← List.length_map Glyph.char, numbered_char]
  rw [numbered_append, hlength, List.drop_left]

theorem next_none_iff (hend : Ended text) : next (numbered number text) = .ok none ↔ Gap text := by
  rw [next_eq_none]
  constructor
  · intro h
    obtain ⟨gap, hgs, hgap, -⟩ := skipTrivia_split h (by rwa [numbered_char]) trivial
    rw [List.append_nil] at hgs
    rwa [Trivia.Covers, ← hgs, numbered_char] at hgap
  · intro h
    rw [← numbered_char number text] at h
    simpa only [List.append_nil, skipTrivia] using skipTrivia_gap h []

theorem next_some_iff (hend : Ended text) :
    next (numbered number text) = .ok (some (t, rest)) ↔
      ∃ gap span after, text = gap ++ (span ++ after) ∧ Gap gap ∧ startsSolid (span ++ after) = true ∧
        Spells t.kind t.text span ∧ Munched t.kind span after ∧ t.line = number + gap.count '\n' ∧
        rest = numbered (number + (gap ++ span).count '\n') after := by
  rw [next_eq_some]
  constructor
  · rintro ⟨g, tail, found, hskip, hfound, rfl, rfl⟩
    obtain ⟨gapGlyphs, hgs, hgap, hsolid⟩ := skipTrivia_split hskip (by rwa [numbered_char]) trivial
    obtain ⟨gap, solid, rfl, rfl, hback⟩ := numbered_split hgs
    rw [Trivia.Covers, numbered_char] at hgap
    rw [hback, numbered_char] at hsolid
    cases solid with
    | nil => cases hback
    | cons c solid =>
      have htail : tail.drop found.size = (g :: tail).drop (found.size + 1) := rfl
      rw [htail, hback]
      obtain ⟨rfl, rfl⟩ := List.cons.inj hback
      rw [numbered_char] at hfound
      obtain ⟨spanTail, after, rfl, hsize, hspells, hmunched⟩ := lexeme_spells hfound
      refine ⟨gap, c :: spanTail, after, rfl, hgap, hsolid, hspells, hmunched, rfl, ?_⟩
      rw [hsize, List.count_append, ← Nat.add_assoc]
      exact numbered_drop _ (c :: spanTail) after
  · rintro ⟨gap, span, after, rfl, hgap, hsolid, hspan, hmunched, hline, rfl⟩
    obtain ⟨c, tail, rfl, hlexeme⟩ := hspan.read hmunched t.line
    have hskip : skipTrivia .blank (numbered number (gap ++ (c :: tail ++ after))) =
        .ok (numbered t.line (c :: tail ++ after)) := by
      rw [numbered_append, ← hline, skipTrivia_gap (by rwa [numbered_char]),
        skipTrivia_solid (by rwa [numbered_char])]
    refine ⟨⟨c, t.line⟩, _, _, hskip, by rwa [numbered_char], rfl, ?_⟩
    rw [List.count_append, ← Nat.add_assoc, ← hline]
    exact (numbered_drop t.line (c :: tail) after).symm

theorem Ended.of_append {front back : List Char} (h : Ended (front ++ back)) : Ended back := by
  intro c hc
  refine h c ?_
  rw [List.getLast?_append, Option.mem_def.mp hc]
  rfl

/-- What is scanned without error is cut, and what can be cut is scanned without error. -/
theorem scans_iff_cut {before : List Char} (hend : Ended text) :
    Scans (numbered (1 + before.count '\n') text) tokens none ↔ Cut before text tokens := by
  have hnumber (front gap span : List Char) :
      1 + front.count '\n' + (gap ++ span).count '\n' = 1 + (front ++ gap ++ span).count '\n' := by
    simp only [List.count_append]
    omega
  -- Each token moves its gap and its span from the text to what is before it.
  induction tokens generalizing before text with
  | nil =>
    constructor
    · rintro (h | _)
      exact .done ((next_none_iff hend).mp h)
    · rintro (h | _)
      exact .done ((next_none_iff hend).mpr h)
  | cons t tokens ih =>
    constructor
    · rintro (_ | _ | ⟨h, hrest⟩)
      obtain ⟨gap, span, after, rfl, hgap, hsolid, hspan, hmunched, hline, rfl⟩ := (next_some_iff hend).mp h
      rw [hnumber] at hrest
      rw [Nat.add_assoc, ← List.count_append] at hline
      exact .token hgap hsolid hspan hmunched hline ((ih hend.of_append.of_append).mp hrest)
    · rintro (_ | ⟨hgap, hsolid, hspan, hmunched, hline, hrest⟩)
      rename_i gap span after
      rw [List.count_append, ← Nat.add_assoc] at hline
      refine .token ((next_some_iff hend).mpr ⟨gap, span, after, rfl, hgap, hsolid, hspan, hmunched,
        hline, rfl⟩) ?_
      rw [hnumber]
      exact (ih hend.of_append.of_append).mpr hrest

end WorldScript.Scan

namespace WorldScript

open Scan

theorem stream_isEnded (replacements : Replacements) (source : String) :
    Ended (stream replacements source) := by
  obtain ⟨front, hfront⟩ := stream_ended replacements source
  simp [hfront, Ended]

theorem tokenize_eq_ok_iff {replacements : Replacements}
    (hflat : ∀ entry ∈ replacements, '\n' ∉ entry.2.toList) {source : String} {tokens : List Token} :
    tokenize replacements source = .ok tokens ↔ Cut [] (stream replacements source) tokens := by
  rw [tokenize_ok_iff, glyphs_numbered hflat, ← scans_iff_cut (stream_isEnded replacements source)]
  rfl

/-- A source is scanned without error exactly if it can be cut into tokens, and every scan ends, as each
token takes characters. -/
theorem tokenize_partitions {replacements : Replacements}
    (hflat : ∀ entry ∈ replacements, '\n' ∉ entry.2.toList) (source : String) :
    (∀ tokens, tokenize replacements source = .ok tokens ↔ Cut [] (stream replacements source) tokens) ∧
      Scans (glyphs replacements source) (scan replacements source).1 (scan replacements source).2 ∧
      ∀ gs t rest, next gs = .ok (some (t, rest)) → ∃ used, used ≠ [] ∧ gs = used ++ rest :=
  ⟨fun _ => tokenize_eq_ok_iff hflat, scans_tokensFrom _, fun _ _ _ => next_advances⟩

def Sample.mixed : String := "x = \"a\n\\\"b\" // c\ny /* d\n*/ <<="

def Sample.numerals : Replacements := [(3, "/**/ 0x1F.5 < 12")]

theorem mixed_partitioned :
    (∀ entry ∈ Sample.numerals, '\n' ∉ entry.2.toList) ∧
      ∃ tokens, tokens.map (fun t => (t.text, t.line)) =
          [("x", 1), ("=", 1), ("\"a\n\\\"b\"", 1), ("0x1F", 3), (".5", 3), ("<", 3), ("12", 3),
            ("*", 4), ("/", 4),
            ("<<", 4), ("=", 4)] ∧
        Cut [] (stream Sample.numerals Sample.mixed) tokens := by
  have hflat : ∀ entry ∈ Sample.numerals, '\n' ∉ entry.2.toList := by decide
  have htokens : (tokenize Sample.numerals Sample.mixed).toOption.map (·.map fun t => (t.text, t.line)) =
      some [("x", 1), ("=", 1), ("\"a\n\\\"b\"", 1), ("0x1F", 3), (".5", 3), ("<", 3), ("12", 3), ("*", 4),
        ("/", 4), ("<<", 4), ("=", 4)] := by decide +kernel
  obtain ⟨tokens, hscan, hshown⟩ := Option.map_eq_some_iff.mp htokens
  have hcut := (tokenize_partitions hflat Sample.mixed).1 tokens
  refine ⟨hflat, tokens, hshown, hcut.mp ?_⟩
  cases hok : tokenize Sample.numerals Sample.mixed with
  | error d => simp [hok, Except.toOption] at hscan
  | ok found => simpa [hok, Except.toOption] using hscan

end WorldScript
