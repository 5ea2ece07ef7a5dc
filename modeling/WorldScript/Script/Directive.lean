import WorldScript.Capability.Member
import WorldScript.Diagnostic
import WorldScript.Token.Source

/-! # Directives

A line whose first character after blanks is `#` is a directive: it opens a dialect or a group of
extensions to the script.  The text that the host put in place of a line is read in its stead.  A
directive that is carried out leaves an empty line.
-/

namespace WorldScript

inductive Directive where
  | dialect (dialect : Dialect)
  | extension (group : String)
deriving DecidableEq

namespace Directive

def text? (line : String) : Option String :=
  match Text.trimStartList line.toList with
  | '#' :: rest => some (String.ofList rest)
  | _ => none

def ofText (line : Nat) (text : String) : Except Diagnostic Directive :=
  match Text.words text with
  | "dialect" :: name :: _ =>
    match Dialect.ofName? name with
    | some d => .ok (.dialect d)
    | none => .error (.syntactic line (.unknownDialect name))
  | "extension" :: group :: _ => .ok (.extension group)
  | _ => .error (.syntactic line (.unresolvedDirective (Text.trim text)))

def apply (v : Visibility) : Directive → Visibility
  | .dialect d => v.withDialect d
  | .extension group => v.withGroup group

def onLine? (replacements : Replacements) (number : Nat) (line : String) :
    Except Diagnostic (Option Directive) :=
  match text? ((replacements.lookup number).getD line) with
  | none => .ok none
  | some text => (ofText number text).map some

def onLines (replacements : Replacements) (number : Nat) :
    List String → Except Diagnostic (List (Nat × Directive))
  | [] => .ok []
  | line :: rest => do
    let found ← onLine? replacements number line
    let others ← onLines replacements (number + 1) rest
    return match found with
      | none => others
      | some d => (number, d) :: others

def ofSource (replacements : Replacements) (source : String) :
    Except Diagnostic (List (Nat × Directive)) := onLines replacements 1 (Text.lines source)

def applyAll (v : Visibility) (directives : List (Nat × Directive)) : Visibility :=
  directives.foldl (fun v d => d.2.apply v) v

def blank (replacements : Replacements) (directives : List (Nat × Directive)) : Replacements :=
  directives.map (fun d => (d.1, "")) ++ replacements

end Directive

end WorldScript
