import WorldScript.Text.Ranges

/-! # Blanks, words and lines

Blank characters are those with the property White_Space.
-/

namespace WorldScript.Text

def blankRanges : List (Nat × Nat) := [
  (0x9, 0xd), (0x20, 0x20), (0x85, 0x85), (0xa0, 0xa0), (0x1680, 0x1680), (0x2000, 0x200a),
  (0x2028, 0x2029), (0x202f, 0x202f), (0x205f, 0x205f), (0x3000, 0x3000)]

def isBlank (c : Char) : Bool := inRanges blankRanges c

def trimStartList (text : List Char) : List Char := text.dropWhile isBlank

def trimEndList (text : List Char) : List Char := (text.reverse.dropWhile isBlank).reverse

def trimStart (text : String) : String := String.ofList (trimStartList text.toList)

def trimEnd (text : String) : String := String.ofList (trimEndList text.toList)

def trim (text : String) : String := trimEnd (trimStart text)

/-- The maximal pieces of `text` that hold no separator; `piece` collects, reversed, the piece being
read. -/
def piecesFrom (isSeparator : Char → Bool) (piece : List Char) : List Char → List (List Char)
  | [] => if piece.isEmpty then [] else [piece.reverse]
  | c :: rest =>
    if isSeparator c then
      if piece.isEmpty then piecesFrom isSeparator [] rest
      else piece.reverse :: piecesFrom isSeparator [] rest
    else piecesFrom isSeparator (c :: piece) rest

def pieces (isSeparator : Char → Bool) (text : String) : List String :=
  (piecesFrom isSeparator [] text.toList).map String.ofList

def words (text : String) : List String := pieces isBlank text

/-- The runs of `text` between newlines, empty ones included; there is always one. -/
def splitLines : List Char → List (List Char)
  | [] => [[]]
  | c :: rest =>
    if c = '\n' then [] :: splitLines rest
    else match splitLines rest with
      | [] => [[c]]
      | line :: lines => (c :: line) :: lines

def dropReturn (line : List Char) : List Char :=
  match line.getLast? with
  | some '\r' => line.dropLast
  | _ => line

/-- The lines of a text as a reader counts them: a newline ends a line, so none follows the last one,
and a carriage return before a newline belongs to the line's end. -/
def lines (text : String) : List String :=
  let runs := splitLines text.toList
  let ended := runs.dropLast.map dropReturn
  let last := runs.getLast?.getD []
  (if last.isEmpty then ended else ended ++ [last]).map String.ofList

end WorldScript.Text
