import WorldScript.Body.Frame
import WorldScript.Script.Directive
import WorldScript.Script.Outline
import WorldScript.Script.Program
import WorldScript.Script.Session
import WorldScript.Token.Scan

/-! # From a source to a program

The directives of a source are carried out, its tokens are read, its declarations are collected and
checked, and then the bodies are turned into code one by one: the initializers of the variables, the
functions, and the handlers of each state.  A problem in one body does not keep the others from being
looked at.
-/

namespace WorldScript

structure CompileOptions where
  /-- What the script may see before any directive of its own. -/
  visibility : Visibility
  maxErrors : Nat
  /-- Whether to look for more problems after the first. -/
  continueAfterError : Bool

def CompileOptions.limit (o : CompileOptions) : Nat :=
  if o.continueAfterError then max o.maxErrors 1 else 1

structure Generator (σ γ : Type) where
  start : σ
  /-- The finished code of a body with its local slots. -/
  finish : List Param → σ → Except Label γ

def Generator.chunks : Generator Assembly Chunk := ⟨.empty, fun locals a => a.finish locals⟩

def Generator.nothing : Generator LabelCount Unit := ⟨⟨0⟩, fun _ _ => .ok ()⟩

namespace Script

variable {σ γ : Type} [Backend σ]

def longProblems (r : Registry) (tokens : List Token) : List Diagnostic :=
  if r.longIntegers then []
  else (tokens.filter fun t => t.is (.typeName .long)).map fun t => .semantic t.line .longDisabled

def bodyCode (g : Generator σ γ) (ctx : BodyContext) (names : Names) (params : List Param)
    (body : Block) : Except Diagnostic γ :=
  let work := Body.compile ctx params body.openLine body.closeLine body.tokens
  match work.run (Body.start names g.start) with
  | .error d _ => .error d
  | .ok locals s =>
    (g.finish locals s.backend).mapError fun label => .defect body.closeLine (.unboundLabel label)

def initializer? (env : Env) (d : GlobalDecl) : Except Diagnostic (Option Expr) :=
  if d.init.isEmpty then .ok none
  else do
    let e ← env.elaborate (.ofTokens d.line d.init)
    match e.ty with
    | none => .error (.semantic d.line .noValue)
    | some found =>
      if d.ty.accepts found then return some (e.convertedTo d.ty)
      else .error (.semantic d.line (.initializerType d.ty d.name found))

/-- The variable in a slot.  Its initializer sees the variables before it. -/
def globalSlot (g : Generator σ γ) (env : Env) (d : GlobalDecl) (slot : Nat) :
    Except Diagnostic (GlobalSlot γ) := do
  let names := env.names.beginBody.showGlobals slot
  let init ← initializer? { env with names } d
  let code ← Expr.initializerCode init d.ty
  let written := Backend.writeAll (Backend.atLine g.start d.line) code
  match g.finish [] written with
  | .ok init => return ⟨d.name, d.ty, init⟩
  | .error label => .error (.defect d.line (.initializerLabel label))

def function (g : Generator σ γ) (env : Env) (d : FunctionDecl) :
    Except Diagnostic (ScriptFunction γ) :=
  let ctx := ⟨env.registry, env.visibility, .function d.signature.returns⟩
  (bodyCode g ctx env.names d.signature.params d.body).map fun code => ⟨d.signature, code⟩

def handler (g : Generator σ γ) (env : Env) (d : HandlerDecl) : Except Diagnostic (Handler γ) :=
  let ctx := ⟨env.registry, env.visibility, .event⟩
  (bodyCode g ctx env.names d.params d.body).map fun code => ⟨d.name, d.params, code⟩

def states (limit : Nat) (g : Generator σ γ) (env : Env) : List StateDecl → Session (List (ScriptState γ))
  | [] => pure []
  | d :: rest => do
    let handlers ← Session.collect limit (handler g env) d.handlers
    let others ← states limit g env rest
    return ⟨d.name, handlers⟩ :: others

def program (limit : Nat) (g : Generator σ γ) (registry : Registry) (visibility : Visibility)
    (o : Outline) : Session (Program γ) := do
  let env : Env := ⟨registry, visibility, o.names⟩
  let globals ← Session.collect limit (fun d => globalSlot g env d.1 d.2) o.globals.zipIdx
  let functions ← Session.collect limit (function g env) o.functions
  let states ← states limit g env o.states
  return ⟨globals, functions, states⟩

def work (g : Generator σ γ) (registry : Registry) (options : CompileOptions)
    (replacements : Replacements) (source : String) : Session (Program γ) := do
  let limit := options.limit
  let directives ← Session.require limit (Directive.ofSource replacements source)
  let visibility := Directive.applyAll options.visibility directives
  let tokens ← Session.require limit (tokenize (Directive.blank replacements directives) source)
  let long := longProblems registry tokens
  Session.noteAll limit long
  if !long.isEmpty then throw ()
  let declarations ← Session.require limit (Declaration.listOfTokens tokens)
  let (outline, problems) := Outline.ofDeclarations declarations
  Session.noteAll limit problems
  Session.noteAll limit (outline.problems registry visibility (lastLine 1 tokens))
  program limit g registry visibility outline

def compile (registry : Registry) (options : CompileOptions) (replacements : Replacements)
    (source : String) : Except (List Diagnostic) (Program Chunk) :=
  Session.outcome (work .chunks registry options replacements source)

def check (registry : Registry) (options : CompileOptions) (replacements : Replacements)
    (source : String) : Except (List Diagnostic) Unit :=
  (Session.outcome (work .nothing registry options replacements source)).map fun _ => ()

end Script

end WorldScript
