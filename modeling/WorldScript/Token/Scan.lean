import WorldScript.Diagnostic
import WorldScript.Number.Reading
import WorldScript.Token.Source

/-! # Scanning

A source is cut into tokens with blanks and comments between them.  A token covers a run of
characters; it is read from the characters at its start alone, and scanning goes on after it.
-/

namespace WorldScript.Scan

inductive Trivia where
  | blank
  | lineComment
  /-- Inside a block comment that starts on the line. -/
  | blockComment (start : Nat)

def skipTrivia : Trivia → List Glyph → Except Diagnostic (List Glyph)
  | .blank, ⟨'/', _⟩ :: ⟨'/', _⟩ :: rest => skipTrivia .lineComment rest
  | .blank, ⟨'/', line⟩ :: ⟨'*', _⟩ :: rest => skipTrivia (.blockComment line) rest
  | .blank, g :: rest => if Text.isBlank g.char then skipTrivia .blank rest else .ok (g :: rest)
  | .lineComment, g :: rest =>
    if g.char = '\n' then skipTrivia .blank rest else skipTrivia .lineComment rest
  | .blockComment _, ⟨'*', _⟩ :: ⟨'/', _⟩ :: rest => skipTrivia .blank rest
  | .blockComment start, _ :: rest => skipTrivia (.blockComment start) rest
  | .blockComment start, [] => .error (.lexical start .unterminatedComment)
  | _, [] => .ok []

/-- Skipping never adds characters. -/
theorem skipTrivia_length {t : Trivia} {gs rest : List Glyph} (h : skipTrivia t gs = .ok rest) :
    rest.length ≤ gs.length := by
  fun_induction skipTrivia t gs <;> grind

/-- A token as it is spelled: what it is, its text, and the number of characters after the first. -/
structure Lexeme where
  kind : TokenKind
  text : String
  size : Nat

def isWordChar (c : Char) : Bool := c.isAlphanum || c = '_'

def isWordStart (c : Char) : Bool := c.isAlpha || c = '_'

def wordKind (text : String) : TokenKind :=
  match Ty.ofKeyword? text with
  | some ty => .typeName ty
  | none =>
    match Keyword.ofText? text with
    | some word => .keyword word
    | none => .identifier text

def word (chars : List Char) : Lexeme :=
  let run := chars.takeWhile isWordChar
  let text := String.ofList run
  ⟨wordKind text, text, run.length - 1⟩

/-- A literal of any size as 32 bits: what is too large becomes the largest pattern of bits. -/
def literalBits (n : Nat) : Int32 := Int32.ofNat (min n (UInt32.size - 1))

def endNumber (line : Nat) (text rest : List Char) : Except Diagnostic Unit :=
  let tail := rest.takeWhile isWordChar
  if tail.isEmpty then .ok ()
  else .error (.lexical line (.malformedNumber (String.ofList (text ++ tail))))

def hexNumber (line : Nat) (chars : List Char) : Except Diagnostic Lexeme := do
  let run := chars.takeWhile Number.isHexDigit
  let text := ['0', 'x'] ++ run
  endNumber line text (chars.dropWhile Number.isHexDigit)
  if run.isEmpty then .error (.lexical line (.malformedHex (String.ofList text)))
  else .ok ⟨.integer (literalBits (Number.ofDigits 16 run)), String.ofList text, run.length + 1⟩

def fractionPart (chars : List Char) : Option (List Char) × List Char :=
  match chars with
  | '.' :: rest => (some (rest.takeWhile Char.isDigit), rest.dropWhile Char.isDigit)
  | rest => (none, rest)

/-- The exponent at the start of `chars`: its mark, its sign if it has one and its digits, with what
follows. -/
def exponentPart (chars : List Char) : Option (List Char × List Char) × List Char :=
  match chars with
  | c :: rest =>
    if c = 'e' || c = 'E' then
      match rest with
      | '+' :: r => (some (['+'], r.takeWhile Char.isDigit), r.dropWhile Char.isDigit)
      | '-' :: r => (some (['-'], r.takeWhile Char.isDigit), r.dropWhile Char.isDigit)
      | r => (some ([], r.takeWhile Char.isDigit), r.dropWhile Char.isDigit)
    else (none, c :: rest)
  | [] => (none, [])

def floatMark (chars : List Char) : Bool × List Char :=
  match chars with
  | c :: rest => if c = 'f' || c = 'F' then (true, rest) else (false, c :: rest)
  | [] => (false, [])

/-- The decimal number at the start of `chars`.  A point, an exponent or a float mark makes it a float;
the mark is not part of its text. -/
def decimalNumber (line : Nat) (chars : List Char) : Except Diagnostic Lexeme := do
  let whole := chars.takeWhile Char.isDigit
  let (fraction, afterFraction) := fractionPart (chars.dropWhile Char.isDigit)
  let (exponent, afterExponent) := exponentPart afterFraction
  let fractionText := fraction.elim [] ('.' :: ·)
  let exponentText := exponent.elim [] fun (sign, run) => 'e' :: sign ++ run
  let text := whole ++ fractionText ++ exponentText
  if (exponent.elim false fun (_, run) => run.isEmpty) then
    .error (.lexical line (.malformedExponent (String.ofList text)))
  else
    let (marked, rest) := floatMark afterExponent
    endNumber line text rest
    let isFloat := fraction.isSome || exponent.isSome || marked
    let kind :=
      if isFloat then
        .float (Number.Scanned.toFloat ⟨whole, fraction.getD [],
          (exponent.elim false fun (sign, _) => sign = ['-']), (exponent.elim [] Prod.snd)⟩)
      else .integer (literalBits (Number.ofDigits 10 whole))
    .ok ⟨kind, String.ofList text, text.length + (if marked then 1 else 0) - 1⟩

def number (line : Nat) (chars : List Char) : Except Diagnostic Lexeme :=
  match chars with
  | '0' :: 'x' :: rest => hexNumber line rest
  | '0' :: 'X' :: rest => hexNumber line rest
  | _ => decimalNumber line chars

def unescape (c : Char) : Char :=
  if c = 'n' then '\n' else if c = 't' then '\t' else c

def stringBody : List Char → Option (List Char × Nat)
  | [] => none
  | '"' :: _ => some ([], 1)
  | '\\' :: c :: rest => (stringBody rest).map fun (value, size) => (unescape c :: value, size + 2)
  | '\\' :: [] => none
  | c :: rest => (stringBody rest).map fun (value, size) => (c :: value, size + 1)

def stringLiteral (line : Nat) (chars : List Char) : Except Diagnostic Lexeme :=
  match stringBody chars with
  | none => .error (.lexical line .unterminatedString)
  | some (value, size) =>
    .ok ⟨.string (String.ofList value), String.ofList ('"' :: chars.take size), size⟩

def punctuation? (c : Char) : Option TokenKind :=
  match c with
  | '(' => some .openParen
  | ')' => some .closeParen
  | '[' => some .openBracket
  | ']' => some .closeBracket
  | '\x7b' => some .openBrace
  | '\x7d' => some .closeBrace
  | ';' => some .semicolon
  | ',' => some .comma
  | _ => none

/-- The operator symbol at the start of `chars`, the longest that fits. -/
def operator? (chars : List Char) : Option Symbol :=
  Symbol.all.find? fun s => s.text.toList.isPrefixOf chars

def startsNumber (c : Char) (rest : List Char) : Bool :=
  c.isDigit || (c = '.' && (rest.head?.any Char.isDigit))

def lexeme (line : Nat) (c : Char) (rest : List Char) : Except Diagnostic Lexeme :=
  if startsNumber c rest then number line (c :: rest)
  else if isWordStart c then .ok (word (c :: rest))
  else if c = '"' then stringLiteral line rest
  else match punctuation? c with
    | some kind => .ok ⟨kind, c.toString, 0⟩
    | none =>
      match operator? (c :: rest) with
      | some symbol => .ok ⟨.operator symbol, symbol.text, symbol.text.length - 1⟩
      | none => .error (.lexical line (.strayCharacter c))

def tokensFrom (gs : List Glyph) : List Token × Option Diagnostic :=
  match h : skipTrivia .blank gs with
  | .error d => ([], some d)
  | .ok [] => ([], none)
  | .ok (g :: rest) =>
    match lexeme g.line g.char (rest.map Glyph.char) with
    | .error d => ([], some d)
    | .ok found =>
      have := skipTrivia_length h
      let (tokens, stop) := tokensFrom (rest.drop found.size)
      (⟨found.kind, found.text, g.line⟩ :: tokens, stop)
termination_by gs.length
decreasing_by grind

end WorldScript.Scan

namespace WorldScript

def scan (replacements : Replacements) (source : String) : List Token × Option Diagnostic :=
  Scan.tokensFrom (glyphs replacements source)

def tokenize (replacements : Replacements) (source : String) : Except Diagnostic (List Token) :=
  match scan replacements source with
  | (tokens, none) => .ok tokens
  | (_, some d) => .error d

end WorldScript
