import WorldScript.Label
import WorldScript.Token

/-! # Diagnostics

A diagnostic is a cause at a line.  Causes fall into four kinds: malformed words, malformed structure,
broken rules of names and types, and defects of the compiler itself.  The wording of each cause is
fixed here and nowhere else.
-/

namespace WorldScript

inductive Construct where
  | entry | block | ifArm | elseIfArm | elseArm | forLoop | whileLoop | doLoop
deriving DecidableEq

def Construct.text : Construct → String
  | .entry => "function entry"
  | .block => "block"
  | .ifArm => "if"
  | .elseIfArm => "else if"
  | .elseArm => "else"
  | .forLoop => "for"
  | .whileLoop => "while"
  | .doLoop => "do … while"

inductive Part where
  | function (name : String)
  | event (name : String)
  | state (name : String)
deriving DecidableEq

def Part.text : Part → String
  | .function name => s!"function \"{name}\""
  | .event name => s!"event \"{name}\""
  | .state name => s!"state \"{name}\""

inductive Lexical where
  | unterminatedComment
  | unterminatedString
  | malformedHex (text : String)
  | malformedExponent (text : String)
  | malformedNumber (text : String)
  | strayCharacter (c : Char)

inductive Syntactic where
  | expectedExpression
  | expectedExpressionAfterComma
  | expectedInParentheses
  | expectedOperand (found : Token)
  | expectedOperandAtEnd
  | expectedMemberName
  | expectedLabelName
  | unexpectedInExpression (found : Token)
  | unexpectedInList (found : Token)
  | unexpectedInVector (found : Token)
  | unclosedVector
  | componentCount (count : Nat)
  | mismatchedBracket (closing opening : Token)
  | unclosedBracket (opening : Token)
  | expectedSemicolon (after : String) (found : Option Token)
  | expectedParenthesis (construct : Construct)
  | expectedForHeader
  | expectedCondition
  | expectedWhile
  | expectedVariableName (ty : Ty)
  | expectedInitializer (name : String)
  | expectedStateName
  | expectedJumpLabel
  | loneElse (inside : Construct)
  | defaultInBody
  | outsideLoop (word : Keyword)
  | statementBeforeBrace (construct : Construct)
  | missingStatement (construct : Construct)
  | missingBrace (construct : Construct)
  | strayBodyBrace
  | labelNotAlone (name : String)
  | unknownDialect (name : String)
  | unresolvedDirective (text : String)
  | strayBrace (after : Option Part)
  | unexpectedAtTop (found : Token)
  | expectedName (ty : Ty)
  | expectedDeclaration (name : String)
  | expectedParameter
  | expectedBrace (part : Part) (found : Option Token)
  | unclosedPart (part : Part)
  | expectedHandler (part : Part) (found : Token)

inductive Semantic where
  | undeclared (name : String)
  | functionWithoutCall (name : String)
  | argumentCount (name : String) (expected given : Nat)
  | argumentType (position : Nat) (name : String) (expected found : Ty)
  | noOverload (name : String) (given : List Ty) (candidates : List String)
  | ambiguousCall (name : String) (given : List Ty) (candidates : List String)
  | noValue
  | voidCall
  | labelAsValue (name : String)
  | noMember (ty : Ty) (name : String)
  | noCast (source target : Ty)
  | listInList
  | componentType (found : Ty)
  | notAssignable (assignment : Assignment)
  | assignmentType (stored target : Ty)
  | unaryOperand (op : UnaryOp) (operand : Ty)
  | binaryOperands (op : BinaryOp) (left right : Ty)
  | stepPlace (symbol : Symbol)
  | stepOperand (symbol : Symbol) (operand : Ty)
  | initializerType (ty : Ty) (name : String) (found : Ty)
  | returnType (found expected : Ty)
  | returnMissing (expected : Ty)
  | returnFromEvent
  | returnFromVoid
  | stateChangeOutsideEvent
  | undeclaredState (name : String)
  | labelDefinedTwice (name : String) (first : Nat)
  | undefinedLabel (name : String)
  | alreadyDeclared (name : String)
  | alreadyInScope (name : String)
  | stateDeclaredTwice (name : String)
  | longDisabled
  | builtinConstant (name : String)
  | builtinFunction (name : String)
  | noDefaultState
  | eventDeclaredTwice (event state : String)
  | unknownEvent (name : String)
  | eventParameters (name : String) (expected : List Ty)

inductive Defect where
  | untypedAssignment
  | stepOf (ty : Ty)
  | noScope (name : String)
  | unallocatedLabel (label : Label)
  | labelMarkedTwice (label : Label) (origin : LabelOrigin) (first : Nat)
  | unmarkedLabel (label : Label) (origin : Option LabelOrigin)
  | unboundLabel (label : Label)
  | initializerLabel (label : Label)
  | noFrame
  | entryClosed
  | missingLabel (construct : Construct)
  | noLoopTarget (word : Keyword)
  | noBinaryForm (symbol : Symbol)
  | noPrefixForm (symbol : Symbol)

inductive Cause where
  | lexical (cause : Lexical)
  | syntactic (cause : Syntactic)
  | semantic (cause : Semantic)
  | defect (cause : Defect)

inductive DiagnosticKind where
  | lexical | syntactic | semantic | internal
deriving DecidableEq

def DiagnosticKind.text : DiagnosticKind → String
  | .lexical => "lexical error"
  | .syntactic => "syntax error"
  | .semantic => "semantic error"
  | .internal => "internal compiler error"

def DiagnosticKind.word : DiagnosticKind → String
  | .lexical => "lexical"
  | .syntactic => "syntax"
  | .semantic => "semantic"
  | .internal => "internal"

def Lexical.message : Lexical → String
  | .unterminatedComment => "unterminated block comment"
  | .unterminatedString => "unterminated string literal"
  | .malformedHex text => s!"malformed hexadecimal literal '{text}'"
  | .malformedExponent text => s!"malformed exponent in '{text}'"
  | .malformedNumber text => s!"malformed numeric literal '{text}'"
  | .strayCharacter c => s!"unexpected character '{c}'"

def foundNote : Option Token → String
  | some t => ", found " ++ t.shown
  | none => ""

def Syntactic.message : Syntactic → String
  | .expectedExpression => "expected an expression"
  | .expectedExpressionAfterComma => "expected an expression after ','"
  | .expectedInParentheses => "expected an expression inside '( )'"
  | .expectedOperand found => s!"expected an operand, found {found.shown}"
  | .expectedOperandAtEnd => "expected an operand at the end of the expression"
  | .expectedMemberName => "expected a member name after '.'"
  | .expectedLabelName => "expected a label name after '@'"
  | .unexpectedInExpression found => s!"unexpected {found.shown} in expression"
  | .unexpectedInList found => s!"unexpected {found.shown} in expression list"
  | .unexpectedInVector found => s!"unexpected {found.shown} in vector literal"
  | .unclosedVector => "missing '>' to close vector literal"
  | .componentCount count =>
    s!"'< >' literal needs 3 (vector) or 4 (rotation) components, found {count}"
  | .mismatchedBracket closing opening =>
    s!"mismatched brackets: {closing.shown} closes {opening.shown} from line {opening.line}"
  | .unclosedBracket opening => s!"unclosed {opening.shown}"
  | .expectedSemicolon after found => s!"expected ';' after {after}{foundNote found}"
  | .expectedParenthesis construct => s!"expected '(' after '{construct.text}'"
  | .expectedForHeader => "expected 'for (init; condition; step)'"
  | .expectedCondition => "expected a condition"
  | .expectedWhile => "expected 'while (condition);' to close \"do … while\""
  | .expectedVariableName ty => s!"expected a variable name after '{ty.keyword}'"
  | .expectedInitializer name => s!"expected '=' or ';' after variable '{name}'"
  | .expectedStateName => "expected a state name after 'state'"
  | .expectedJumpLabel => "expected a label name after 'jump'"
  | .loneElse inside =>
    s!"'else' without a matching 'if' (innermost open construct is \"{inside.text}\")"
  | .defaultInBody => "unexpected 'default' inside a body"
  | .outsideLoop word => s!"'{word.text}' outside of a loop"
  | .statementBeforeBrace construct =>
    s!"expected a statement before '\x7d' to complete \"{construct.text}\""
  | .missingStatement construct => s!"expected a statement to complete \"{construct.text}\""
  | .missingBrace construct => s!"missing '\x7d' to close \"{construct.text}\""
  | .strayBodyBrace => "mismatched '\x7d': nothing left to close inside \"function entry\""
  | .labelNotAlone name => s!"label '@{name}' must stand on its own as a statement"
  | .unknownDialect name => s!"unknown dialect '{name}'"
  | .unresolvedDirective text => s!"unresolved preprocessor directive '#{text}'"
  | .strayBrace (some part) => s!"mismatched '\x7d': nothing left to close after {part.text}"
  | .strayBrace none => "mismatched '\x7d': nothing is open at top level"
  | .unexpectedAtTop found => s!"unexpected {found.shown} at top level"
  | .expectedName ty => s!"expected a name after '{ty.keyword}'"
  | .expectedDeclaration name => s!"expected '(', '=' or ';' after '{name}'"
  | .expectedParameter => "expected 'type name' in parameter list"
  | .expectedBrace part found => s!"expected '\x7b' to open {part.text}{foundNote found}"
  | .unclosedPart part => s!"missing '\x7d' to close {part.text}"
  | .expectedHandler part found => s!"expected an event handler in {part.text}, found {found.shown}"

def Semantic.message : Semantic → String
  | .undeclared name => s!"undeclared identifier '{name}'"
  | .functionWithoutCall name => s!"function '{name}' used without a call"
  | .argumentCount name expected given => s!"'{name}' expects {expected} argument(s), found {given}"
  | .argumentType position name expected found =>
    s!"argument {position} of '{name}' must be {expected.keyword}, found {found.keyword}"
  | .noOverload name given candidates =>
    s!"no overload of '{name}' accepts ({Ty.commaList given}); candidates: "
      ++ ", ".intercalate candidates
  | .ambiguousCall name given candidates =>
    s!"ambiguous call to '{name}' with ({Ty.commaList given}); candidates: "
      ++ ", ".intercalate candidates
  | .noValue => "expression has no value"
  | .voidCall => "function returns no value"
  | .labelAsValue name => s!"label '@{name}' cannot be used as a value"
  | .noMember ty name => s!"{ty.keyword} has no member '.{name}'"
  | .noCast source target => s!"cannot cast {source.keyword} to {target.keyword}"
  | .listInList => "lists cannot contain lists"
  | .componentType found =>
    s!"vector and rotation components must be numeric, found {found.keyword}"
  | .notAssignable assignment => s!"left side of '{assignment.text}' is not assignable"
  | .assignmentType stored target =>
    s!"cannot assign a {stored.keyword} value to a {target.keyword} variable"
  | .unaryOperand op operand => s!"operator '{op.text}' cannot be applied to {operand.keyword}"
  | .binaryOperands op left right =>
    s!"operator '{op.text}' cannot be applied to {left.keyword} and {right.keyword}"
  | .stepPlace symbol => s!"'{symbol.text}' needs a variable"
  | .stepOperand symbol operand =>
    s!"operator '{symbol.text}' cannot be applied to {operand.keyword}"
  | .initializerType ty name found =>
    s!"cannot initialize {ty.keyword} '{name}' with a {found.keyword} value"
  | .returnType found expected =>
    s!"cannot return a {found.keyword} value from a function returning {expected.keyword}"
  | .returnMissing expected => s!"function must return a {expected.keyword} value"
  | .returnFromEvent => "cannot return a value from an event handler"
  | .returnFromVoid => "cannot return a value from a function without a return type"
  | .stateChangeOutsideEvent => "state changes are only allowed inside event handlers"
  | .undeclaredState name => s!"undeclared state \"{name}\""
  | .labelDefinedTwice name first => s!"label '{name}' is defined twice (first at line {first})"
  | .undefinedLabel name => s!"jump to undefined label '{name}'"
  | .alreadyDeclared name => s!"'{name}' is already declared"
  | .alreadyInScope name => s!"'{name}' is already declared in this scope"
  | .stateDeclaredTwice name => s!"state \"{name}\" is already declared"
  | .longDisabled => "type 'long' is not enabled for this registry"
  | .builtinConstant name => s!"'{name}' is a built-in constant and cannot be redeclared"
  | .builtinFunction name => s!"'{name}' is a built-in function and cannot be redeclared"
  | .noDefaultState => "script has no default state"
  | .eventDeclaredTwice event state => s!"event '{event}' is already declared in state \"{state}\""
  | .unknownEvent name => s!"unknown event '{name}'"
  | .eventParameters name expected => s!"event '{name}' takes ({Ty.commaList expected})"

def Defect.message : Defect → String
  | .untypedAssignment => "assignment without a target type"
  | .stepOf ty => s!"increment of a {ty.keyword} place reached code generation"
  | .noScope name => s!"no open scope for local '{name}'"
  | .unallocatedLabel label => s!"label {label.text} was never allocated"
  | .labelMarkedTwice label origin first =>
    s!"label {label.text} ({origin.text}) resolved twice, first at line {first}"
  | .unmarkedLabel label (some origin) => s!"label {label.text} ({origin.text}) was never resolved"
  | .unmarkedLabel label none => s!"label {label.text} (unknown origin) was never resolved"
  | .unboundLabel label => s!"label {label.text} was never bound to a position"
  | .initializerLabel label => s!"label {label.text} in an initializer"
  | .noFrame => "control-flow frame stack is empty"
  | .entryClosed => "\"function entry\" frame closed before the end of the body"
  | .missingLabel construct => s!"\"{construct.text}\" frame is missing a label"
  | .noLoopTarget word => s!"loop frame has no {word.text} target"
  | .noBinaryForm symbol => s!"operator '{symbol.text}' has no binary form"
  | .noPrefixForm symbol => s!"operator '{symbol.text}' has no prefix form"

namespace Cause

def kind : Cause → DiagnosticKind
  | .lexical _ => .lexical
  | .syntactic _ => .syntactic
  | .semantic _ => .semantic
  | .defect _ => .internal

def message : Cause → String
  | .lexical cause => cause.message
  | .syntactic cause => cause.message
  | .semantic cause => cause.message
  | .defect cause => cause.message

end Cause

structure Diagnostic where
  line : Nat
  cause : Cause

namespace Diagnostic

def lexical (line : Nat) (cause : Lexical) : Diagnostic := ⟨line, .lexical cause⟩

def syntactic (line : Nat) (cause : Syntactic) : Diagnostic := ⟨line, .syntactic cause⟩

def semantic (line : Nat) (cause : Semantic) : Diagnostic := ⟨line, .semantic cause⟩

def defect (line : Nat) (cause : Defect) : Diagnostic := ⟨line, .defect cause⟩

end Diagnostic

end WorldScript
