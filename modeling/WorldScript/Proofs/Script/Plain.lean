import WorldScript.Proofs.Text.Lines
import WorldScript.Script.Compile

/-! # Plain sources

A source without the character `#` has no directives.  What is left to do is work on its tokens, and these
are read from its characters: the texts of its lines need not be put together for that.
-/

namespace WorldScript

namespace Directive

theorem text?_of_plain {line : String} (h : '#' ∉ line.toList) : text? line = none := by
  unfold text?
  split
  · rename_i rest hrest
    have hmem : '#' ∈ Text.trimStartList line.toList := by simp [hrest]
    exact absurd (List.dropWhile_subset _ hmem) h
  · rfl

theorem onLines_of_plain {lines : List String} (h : ∀ line ∈ lines, '#' ∉ line.toList) (number : Nat) :
    onLines [] number lines = .ok [] := by
  induction lines generalizing number with
  | nil => rfl
  | cons line rest ih =>
    rw [List.forall_mem_cons] at h
    have hline : onLine? [] number line = .ok none := by
      rw [onLine?, List.lookup_nil, Option.getD_none, text?_of_plain h.1]
    rw [onLines, hline, ih h.2]
    rfl

theorem ofSource_of_plain {source : String} (h : '#' ∉ source.toList) : ofSource [] source = .ok [] :=
  onLines_of_plain (fun _ hline hmem => h (Text.toList_subset_of_mem_lines hline hmem)) 1

end Directive

def charTokens (chars : List Char) : Except Diagnostic (List Token) :=
  match Scan.tokensFrom (glyphsFrom [] 1 (Text.splitLines chars)) with
  | (tokens, none) => .ok tokens
  | (_, some d) => .error d

theorem tokenize_eq_charTokens {source : String} {chars : List Char} (h : source.toList = chars) :
    tokenize [] source = charTokens chars := by
  subst h
  rfl

namespace Script

def tokenWork (limit : Nat) (registry : Registry) (visibility : Visibility) (tokens : List Token) :
    Session (Program Chunk) := do
  Session.noteAll limit (longProblems registry tokens)
  if !(longProblems registry tokens).isEmpty then throw ()
  let declarations ← Session.require limit (Declaration.listOfTokens tokens)
  let (outline, problems) := Outline.ofDeclarations declarations
  Session.noteAll limit problems
  Session.noteAll limit (outline.problems registry visibility (lastLine 1 tokens))
  program limit .chunks registry visibility outline

def compileChars (registry : Registry) (options : CompileOptions) (chars : List Char) :
    Except (List Diagnostic) (Program Chunk) :=
  Session.outcome do
    let tokens ← Session.require options.limit (charTokens chars)
    tokenWork options.limit registry options.visibility tokens

theorem compile_of_plain {source : String} {chars : List Char} (hs : source.toList = chars) (h : '#' ∉ chars)
    (registry : Registry) (options : CompileOptions) :
    compile registry options [] source = compileChars registry options chars := by
  rw [compile, work, Directive.ofSource_of_plain (hs.symm ▸ h), compileChars, ← tokenize_eq_charTokens hs]
  rfl

end Script

end WorldScript
