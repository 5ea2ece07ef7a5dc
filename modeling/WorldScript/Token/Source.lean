import WorldScript.Text.Blank

/-! # Sources with replaced lines

The host may replace lines of a source.  Whatever a replacement holds, newlines included, keeps the
number of the line it replaces.
-/

namespace WorldScript

/-- Replacement texts by line number; the first entry of a line counts. -/
abbrev Replacements := List (Nat × String)

structure Glyph where
  char : Char
  line : Nat
deriving DecidableEq

def lineGlyphs (replacements : Replacements) (number : Nat) (text : List Char) : List Glyph :=
  let shown := ((replacements.lookup number).map String.toList).getD text
  (shown ++ ['\n']).map fun c => ⟨c, number⟩

def glyphsFrom (replacements : Replacements) (number : Nat) : List (List Char) → List Glyph
  | [] => []
  | text :: rest => lineGlyphs replacements number text ++ glyphsFrom replacements (number + 1) rest

def glyphs (replacements : Replacements) (source : String) : List Glyph :=
  glyphsFrom replacements 1 (Text.splitLines source.toList)

def lastSourceLine (source : String) : Nat := (Text.splitLines source.toList).length

end WorldScript
