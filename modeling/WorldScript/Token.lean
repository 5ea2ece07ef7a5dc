import WorldScript.Operator
import WorldScript.Ty

/-! # Tokens -/

namespace WorldScript

inductive Keyword where
  | ifWord | elseWord | forWord | whileWord | doWord | jump | returnWord | state | default | breakWord
  | continueWord
deriving DecidableEq

namespace Keyword

def all : List Keyword := [
  .ifWord, .elseWord, .forWord, .whileWord, .doWord, .jump, .returnWord, .state, .default, .breakWord,
  .continueWord]

def text : Keyword → String
  | .ifWord => "if"
  | .elseWord => "else"
  | .forWord => "for"
  | .whileWord => "while"
  | .doWord => "do"
  | .jump => "jump"
  | .returnWord => "return"
  | .state => "state"
  | .default => "default"
  | .breakWord => "break"
  | .continueWord => "continue"

def ofText? (text : String) : Option Keyword := all.find? fun k => k.text = text

end Keyword

inductive TokenKind where
  | identifier (name : String)
  | keyword (word : Keyword)
  | typeName (ty : Ty)
  | integer (n : Int32)
  | float (x : Float)
  | string (value : String)
  | operator (symbol : Symbol)
  | openParen | closeParen
  | openBracket | closeBracket
  | openBrace | closeBrace
  | semicolon
  | comma
deriving DecidableEq

structure Token where
  kind : TokenKind
  text : String
  line : Nat

namespace Token

def is (t : Token) (kind : TokenKind) : Bool := t.kind = kind

def isSymbol (t : Token) (symbol : Symbol) : Bool := t.is (.operator symbol)

def isKeyword (t : Token) (word : Keyword) : Bool := t.is (.keyword word)

def identifier? (t : Token) : Option String :=
  match t.kind with
  | .identifier name => some name
  | _ => none

def ty? (t : Token) : Option Ty :=
  match t.kind with
  | .typeName ty => some ty
  | _ => none

def stateName? (t : Token) : Option String :=
  if t.isKeyword .default then some "default" else t.identifier?

def shown (t : Token) : String :=
  match t.kind with
  | .string _ => "string literal " ++ t.text
  | .integer _ | .float _ => "number " ++ t.text
  | _ => s!"'{t.text}'"

end Token

/-- The runs between tokens of a kind, empty ones included; there is always one. -/
def runsBetween (separator : TokenKind) : List Token → List (List Token)
  | [] => [[]]
  | t :: rest =>
    if t.is separator then [] :: runsBetween separator rest
    else match runsBetween separator rest with
      | [] => [[t]]
      | run :: runs => (t :: run) :: runs

def firstLine (fallback : Nat) (tokens : List Token) : Nat :=
  match tokens with
  | [] => fallback
  | t :: _ => t.line

def lastLine (fallback : Nat) (tokens : List Token) : Nat :=
  match tokens.getLast? with
  | none => fallback
  | some t => t.line

end WorldScript
