/-! # Operators

The symbols of the language, the operators they stand for, and the table of precedence tiers.  The
order of the tiers, from the tightest to the loosest, is part of the language.
-/

namespace WorldScript

inductive Symbol where
  | increment | decrement
  | addAssign | subAssign | mulAssign | divAssign | modAssign
  | equal | notEqual | lessEqual | greaterEqual
  | both | either
  | shiftLeft | shiftRight
  | plus | minus | star | slash | percent
  | less | greater | assign
  | bang | tilde | ampersand | bar | caret | dot | at
deriving DecidableEq

namespace Symbol

/-- Every symbol, those of two characters first, so that the first one found at the start of a text is
the longest. -/
def all : List Symbol := [
  .increment, .decrement, .addAssign, .subAssign, .mulAssign, .divAssign, .modAssign, .equal,
  .notEqual, .lessEqual, .greaterEqual, .both, .either, .shiftLeft, .shiftRight, .plus, .minus, .star,
  .slash, .percent, .less, .greater, .assign, .bang, .tilde, .ampersand, .bar, .caret, .dot, .at]

theorem mem_all (s : Symbol) : s ∈ all := by
  cases s <;> decide

def text : Symbol → String
  | .increment => "++"
  | .decrement => "--"
  | .addAssign => "+="
  | .subAssign => "-="
  | .mulAssign => "*="
  | .divAssign => "/="
  | .modAssign => "%="
  | .equal => "=="
  | .notEqual => "!="
  | .lessEqual => "<="
  | .greaterEqual => ">="
  | .both => "&&"
  | .either => "||"
  | .shiftLeft => "<<"
  | .shiftRight => ">>"
  | .plus => "+"
  | .minus => "-"
  | .star => "*"
  | .slash => "/"
  | .percent => "%"
  | .less => "<"
  | .greater => ">"
  | .assign => "="
  | .bang => "!"
  | .tilde => "~"
  | .ampersand => "&"
  | .bar => "|"
  | .caret => "^"
  | .dot => "."
  | .at => "@"

def ofText? (text : String) : Option Symbol := all.find? fun s => s.text = text

end Symbol

inductive BinaryOp where
  | mul | div | mod | add | sub
  | shiftLeft | shiftRight
  | less | lessEqual | greater | greaterEqual | equal | notEqual
  | bitAnd | bitXor | bitOr
  | and | or
deriving DecidableEq

namespace BinaryOp

def toSymbol : BinaryOp → Symbol
  | .mul => .star
  | .div => .slash
  | .mod => .percent
  | .add => .plus
  | .sub => .minus
  | .shiftLeft => .shiftLeft
  | .shiftRight => .shiftRight
  | .less => .less
  | .lessEqual => .lessEqual
  | .greater => .greater
  | .greaterEqual => .greaterEqual
  | .equal => .equal
  | .notEqual => .notEqual
  | .bitAnd => .ampersand
  | .bitXor => .caret
  | .bitOr => .bar
  | .and => .both
  | .or => .either

def ofSymbol? : Symbol → Option BinaryOp
  | .star => some .mul
  | .slash => some .div
  | .percent => some .mod
  | .plus => some .add
  | .minus => some .sub
  | .shiftLeft => some .shiftLeft
  | .shiftRight => some .shiftRight
  | .less => some .less
  | .lessEqual => some .lessEqual
  | .greater => some .greater
  | .greaterEqual => some .greaterEqual
  | .equal => some .equal
  | .notEqual => some .notEqual
  | .ampersand => some .bitAnd
  | .caret => some .bitXor
  | .bar => some .bitOr
  | .both => some .and
  | .either => some .or
  | _ => none

def text (op : BinaryOp) : String := op.toSymbol.text

end BinaryOp

inductive UnaryOp where
  | negate | not | bitNot
deriving DecidableEq

namespace UnaryOp

def ofSymbol? : Symbol → Option UnaryOp
  | .minus => some .negate
  | .bang => some .not
  | .tilde => some .bitNot
  | _ => none

def text : UnaryOp → String
  | .negate => "-"
  | .not => "!"
  | .bitNot => "~"

end UnaryOp

/-- What an assignment does with its target: replace it, or apply an operator to it first. -/
structure Assignment where
  op : Option BinaryOp
deriving DecidableEq

namespace Assignment

def ofSymbol? : Symbol → Option Assignment
  | .assign => some ⟨none⟩
  | .addAssign => some ⟨some .add⟩
  | .subAssign => some ⟨some .sub⟩
  | .mulAssign => some ⟨some .mul⟩
  | .divAssign => some ⟨some .div⟩
  | .modAssign => some ⟨some .mod⟩
  | _ => none

def text (a : Assignment) : String := a.op.elim "=" fun op => op.text ++ "="

end Assignment

inductive Position where
  /-- Before its operand. -/
  | before
  /-- After its operand. -/
  | after
  /-- Between its operands. -/
  | between
deriving DecidableEq

structure Tier where
  name : String
  /-- Whether a chain of operators groups from the right. -/
  groupsRight : Bool
  operators : List (String × Position)

namespace Tier

def contains (t : Tier) (text : String) (position : Position) : Bool :=
  t.operators.contains (text, position)

/-- The tiers from the tightest to the loosest.  A cast stands in the table as `(type)`. -/
def table : List Tier := [
  ⟨"cast", true, [("(type)", .before)]⟩,
  ⟨"label", true, [("@", .before)]⟩,
  ⟨"postfix", false, [("++", .after), ("--", .after), (".", .between)]⟩,
  ⟨"prefix", true, [("-", .before), ("!", .before), ("~", .before), ("++", .before), ("--", .before)]⟩,
  ⟨"multiplicative", false, [("*", .between), ("/", .between), ("%", .between)]⟩,
  ⟨"additive", false, [("+", .between), ("-", .between)]⟩,
  ⟨"shift", false, [("<<", .between), (">>", .between)]⟩,
  ⟨"relational", false, [("<", .between), ("<=", .between), (">", .between), (">=", .between)]⟩,
  ⟨"equality", false, [("==", .between), ("!=", .between)]⟩,
  ⟨"bitwise and", false, [("&", .between)]⟩,
  ⟨"bitwise xor", false, [("^", .between)]⟩,
  ⟨"bitwise or", false, [("|", .between)]⟩,
  ⟨"logical", false, [("&&", .between), ("||", .between)]⟩,
  ⟨"assignment", true,
    [("=", .between), ("+=", .between), ("-=", .between), ("*=", .between), ("/=", .between),
     ("%=", .between)]⟩]

def leading : Nat := 3

def firstBinary : Nat := 4

def loosest : Nat := table.length - 1

def indexOf? (text : String) (position : Position) : Option Nat :=
  table.findIdx? fun t => t.contains text position

end Tier

def Symbol.isBetween (s : Symbol) : Bool :=
  (Tier.table.drop Tier.firstBinary).any fun tier => tier.contains s.text .between

def Symbol.isBefore (s : Symbol) : Bool :=
  Tier.table[Tier.leading]?.any fun tier => tier.contains s.text .before

end WorldScript
