import WorldScript.Code
import WorldScript.Number.Double

/-! # Listings of code -/

namespace WorldScript

def fourWide (fill : Char) (n : Nat) : String :=
  String.ofList (Number.padLeft 4 fill (Number.digits n))

def Value.literalText : Value → String
  | .string s => Text.quoted s
  | v => v.text

def Instr.text : Instr Nat → String
  | .push v => s!"PUSH {v.literalText}"
  | .load v => s!"LOAD {v.text}"
  | .store v => s!"STORE {v.text}"
  | .getMember a => s!"GET_MEMBER .{a.name}"
  | .storeMember v a => s!"STORE_MEMBER {v.text}.{a.name}"
  | .pop => "POP"
  | .dup => "DUP"
  | .unary op => s!"UNARY {op.text}"
  | .binary op => s!"BINARY {op.text}"
  | .cast ty => s!"CAST {ty.keyword}"
  | .convert ty => s!"CONVERT {ty.keyword}"
  | .makeVector => "MAKE_VECTOR"
  | .makeRotation => "MAKE_ROTATION"
  | .makeList n => s!"MAKE_LIST {n}"
  | .call callee n => s!"CALL {callee.text} ({n} args)"
  | .jump target => "JUMP -> " ++ fourWide '0' target
  | .jumpIfFalse target => "JUMP_IF_FALSE -> " ++ fourWide '0' target
  | .ret => "RETURN"
  | .retValue => "RETURN_VALUE"
  | .changeState i => s!"STATE {i}"

/-- The lines of entries from an offset on.  A source line is shown where it differs from the one
before. -/
def listEntries (offset : Nat) (previous : Option Nat) : List Entry → List String
  | [] => []
  | e :: rest =>
    let line := if previous = some e.line then "   |" else fourWide ' ' e.line
    let position := fourWide '0' offset
    s!"{position} {line} {e.instr.text}\n" :: listEntries (offset + 1) (some e.line) rest

def listLocals (slot : Nat) : List Param → List String
  | [] => []
  | l :: rest => s!"; local{slot} {l.ty.keyword} {l.name}\n" :: listLocals (slot + 1) rest

def Chunk.listing (c : Chunk) (name : String) : String :=
  String.join (s!"== {name} ==\n" :: listLocals 0 c.locals ++ listEntries 0 none c.entries.toList)

end WorldScript
