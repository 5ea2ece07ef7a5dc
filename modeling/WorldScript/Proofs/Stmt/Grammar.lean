import WorldScript.Stmt.Parse

/-! # The grammar of statements

What it means that tokens spell statements.  The body of a construct is a single statement, or
statements in braces.  A conditional ends without an `else` only where no `else` follows, so that an
`else` belongs to the nearest conditional that is open.
-/

namespace WorldScript

namespace Grammar

def depthAfter (depth : Nat) (t : Token) : Nat :=
  match t.kind with
  | .openParen | .openBracket => depth + 1
  | .closeParen | .closeBracket => depth - 1
  | _ => depth

/-- Tokens without braces that close all brackets and have semicolons only inside brackets. -/
def IsRun : Nat → List Token → Prop
  | depth, [] => depth = 0
  | depth, t :: rest => t.kind ≠ .openBrace ∧ t.kind ≠ .closeBrace ∧ (t.kind = .semicolon → depth ≠ 0) ∧
      IsRun (depthAfter depth t) rest

def Ends (run ts rest : List Token) : Prop :=
  ∃ semi : Token, semi.kind = .semicolon ∧ ts = run ++ semi :: rest

def Encloses (inner ts rest : List Token) : Prop :=
  ∃ t more, ts = t :: more ∧ t.kind = .openParen ∧ Bracket.inside t more = .ok (inner, rest)

def startsExpression (t : Token) : Bool :=
  match t.kind with
  | .keyword _ | .typeName _ | .semicolon | .openBrace => false
  | _ => true

inductive Plain : List Token → Stmt → List Token → Prop
  | empty {t : Token} {rest : List Token} (ht : t.kind = .semicolon) : Plain (t :: rest) .empty rest
  | declare {t n : Token} {ts rest : List Token} {ty : Ty} {name : String} (ht : t.kind = .typeName ty)
      (hn : n.kind = .identifier name) (he : Ends [] ts rest) :
      Plain (t :: n :: ts) (.declare ty name none t.line) rest
  | declareInit {t n sign : Token} {run ts rest : List Token} {ty : Ty} {name : String}
      (ht : t.kind = .typeName ty) (hn : n.kind = .identifier name) (hs : sign.kind = .operator .assign)
      (hr : IsRun 0 run) (he : Ends run ts rest) :
      Plain (t :: n :: sign :: ts) (.declare ty name (some (.ofTokens t.line run)) t.line) rest
  | expr {t : Token} {run ts rest : List Token} (ht : startsExpression t = true) (hr : IsRun 0 (t :: run))
      (he : Ends run ts rest) : Plain (t :: ts) (.expr (.ofTokens t.line (t :: run)) t.line) rest
  | ret {t : Token} {ts rest : List Token} (ht : t.kind = .keyword .returnWord) (he : Ends [] ts rest) :
      Plain (t :: ts) (.ret none t.line) rest
  | retValue {t : Token} {run ts rest : List Token} (ht : t.kind = .keyword .returnWord) (hr : IsRun 0 run)
      (hne : run ≠ []) (he : Ends run ts rest) :
      Plain (t :: ts) (.ret (some (.ofTokens t.line run)) t.line) rest
  | changeState {t n : Token} {ts rest : List Token} {name : String} (ht : t.kind = .keyword .state)
      (hn : n.stateName? = some name) (he : Ends [] ts rest) :
      Plain (t :: n :: ts) (.changeState name t.line) rest
  | jump {t n : Token} {ts rest : List Token} {name : String} (ht : t.kind = .keyword .jump)
      (hn : n.kind = .identifier name) (he : Ends [] ts rest) : Plain (t :: n :: ts) (.jump name t.line) rest
  | breakLoop {t : Token} {ts rest : List Token} (ht : t.kind = .keyword .breakWord) (he : Ends [] ts rest) :
      Plain (t :: ts) (.breakLoop t.line) rest
  | continueLoop {t : Token} {ts rest : List Token} (ht : t.kind = .keyword .continueWord)
      (he : Ends [] ts rest) : Plain (t :: ts) (.continueLoop t.line) rest

inductive Phrase where
  | stmt (s : Stmt)
  /-- Statements with the brace that closes them. -/
  | block (body : List Stmt)
  | body (body : List Stmt)
  /-- What follows the body of a conditional. -/
  | tail (t : Tail)

/-- `ts` spells a phrase, and `rest` follows.  `stop` is the line where the whole body ends. -/
inductive Spells (stop : Nat) : List Token → Phrase → List Token → Prop
  | plain {ts rest : List Token} {s : Stmt} (h : Plain ts s rest) : Spells stop ts (.stmt s) rest
  | braces {t : Token} {ts rest : List Token} {body : List Stmt} (ht : t.kind = .openBrace)
      (hb : Spells stop ts (.block body) rest) : Spells stop (t :: ts) (.stmt (.block body)) rest
  | branch {t : Token} {test ts first next rest : List Token} {body : List Stmt} {tail : Tail}
      (ht : t.kind = .keyword .ifWord) (hc : Encloses test ts first) (hne : test ≠ [])
      (hb : Spells stop first (.body body) next) (htail : Spells stop next (.tail tail) rest) :
      Spells stop (t :: ts) (.stmt (.branch (.ofTokens t.line test) body tail t.line)) rest
  | whileLoop {t : Token} {test ts first rest : List Token} {body : List Stmt}
      (ht : t.kind = .keyword .whileWord) (hc : Encloses test ts first) (hne : test ≠ [])
      (hb : Spells stop first (.body body) rest) :
      Spells stop (t :: ts)
        (.stmt (.whileLoop (.ofTokens t.line test) body t.line (firstLine stop rest))) rest
  | forLoop {t : Token} {header init test step ts first rest : List Token} {body : List Stmt}
      (ht : t.kind = .keyword .forWord) (hc : Encloses header ts first)
      (hh : runsBetween .semicolon header = [init, test, step]) (hb : Spells stop first (.body body) rest) :
      Spells stop (t :: ts) (.stmt (.forLoop (Term.listOfTokens t.line init)
        (if test.isEmpty then none else some (.ofTokens t.line test)) (Term.listOfTokens t.line step) body
        t.line (firstLine stop rest))) rest
  | doLoop {t last : Token} {test ts us next rest : List Token} {body : List Stmt}
      (ht : t.kind = .keyword .doWord) (hb : Spells stop ts (.body body) (last :: us))
      (hl : last.kind = .keyword .whileWord) (hc : Encloses test us next) (hne : test ≠ [])
      (he : Ends [] next rest) :
      Spells stop (t :: ts) (.stmt (.doLoop body (.ofTokens last.line test) t.line last.line)) rest
  | close {t : Token} {rest : List Token} (ht : t.kind = .closeBrace) :
    Spells stop (t :: rest) (.block []) rest
  | more {ts next rest : List Token} {s : Stmt} {body : List Stmt} (hs : Spells stop ts (.stmt s) next)
      (hb : Spells stop next (.block body) rest) : Spells stop ts (.block (s :: body)) rest
  | braced {t : Token} {ts rest : List Token} {body : List Stmt} (ht : t.kind = .openBrace)
      (hb : Spells stop ts (.block body) rest) : Spells stop (t :: ts) (.body body) rest
  | single {t : Token} {ts rest : List Token} {s : Stmt} (ht : t.kind ≠ .openBrace)
      (hs : Spells stop (t :: ts) (.stmt s) rest) : Spells stop (t :: ts) (.body [s]) rest
  | done {ts : List Token} (h : ∀ t rest, ts = t :: rest → t.kind ≠ .keyword .elseWord) :
      Spells stop ts (.tail (.done (firstLine stop ts))) ts
  | elseIf {t i : Token} {test ts first next rest : List Token} {body : List Stmt} {tail : Tail}
      (ht : t.kind = .keyword .elseWord) (hi : i.kind = .keyword .ifWord) (hc : Encloses test ts first)
      (hne : test ≠ []) (hb : Spells stop first (.body body) next)
      (htail : Spells stop next (.tail tail) rest) :
      Spells stop (t :: i :: ts) (.tail (.elseIf (.ofTokens t.line test) body tail t.line)) rest
  | elseArm {t i : Token} {ts rest : List Token} {body : List Stmt} (ht : t.kind = .keyword .elseWord)
      (hi : i.kind ≠ .keyword .ifWord) (hb : Spells stop (i :: ts) (.body body) rest) :
      Spells stop (t :: i :: ts) (.tail (.elseArm body t.line (firstLine stop rest))) rest

end Grammar

def Stmt.Spelled (stop : Nat) (tokens : List Token) (body : List Stmt) : Prop :=
  Grammar.Spells stop tokens (.block body) []

end WorldScript
