import WorldScript.Capability.Registry
import WorldScript.Script.Declaration

/-! # Outlines

The declarations of a script by kind, with the names that they introduce.  A second declaration of a
name is reported and left out.  The rules that need every declaration, or what the host offers, are
checked on the whole outline.
-/

namespace WorldScript

structure Outline where
  globals : List GlobalDecl
  functions : List FunctionDecl
  states : List StateDecl
  names : Names

namespace Outline

def empty : Outline := ⟨[], [], [], .empty⟩

def add (o : Outline) : Declaration → Except Diagnostic Outline
  | .global d =>
    (o.names.declareGlobal d.name d.ty d.line).map fun names =>
      { o with names, globals := o.globals ++ [d] }
  | .function d =>
    (o.names.declareFunction d.signature d.line).map fun names =>
      { o with names, functions := o.functions ++ [d] }
  | .state d =>
    (o.names.declareState d.name d.line).map fun names => { o with names, states := o.states ++ [d] }

def addAll (o : Outline) : List Declaration → Outline × List Diagnostic
  | [] => (o, [])
  | d :: rest =>
    match o.add d with
    | .ok more => more.addAll rest
    | .error problem =>
      let (all, problems) := o.addAll rest
      (all, problem :: problems)

def ofDeclarations (ds : List Declaration) : Outline × List Diagnostic := empty.addAll ds

def globalProblem? (r : Registry) (v : Visibility) (d : GlobalDecl) : Option Diagnostic :=
  if (r.constant? d.name v).isSome then some (.semantic d.line (.builtinConstant d.name)) else none

def functionProblem? (r : Registry) (v : Visibility) (d : FunctionDecl) : Option Diagnostic :=
  if r.hasFunction d.signature.name v then
    some (.semantic d.line (.builtinFunction d.signature.name))
  else none

/-- A handler is for an event of the host, once in a state and with the parameters of the event.
`before` are the names of the handlers before it. -/
def handlerProblem? (r : Registry) (v : Visibility) (state : String) (before : List String)
    (d : HandlerDecl) : Option Diagnostic :=
  if before.contains d.name then some (.semantic d.line (.eventDeclaredTwice d.name state))
  else match r.event? d.name v with
    | none => some (.semantic d.line (.unknownEvent d.name))
    | some e =>
      if d.params.map Param.ty = e.params then none
      else some (.semantic d.line (.eventParameters d.name e.params))

def handlerProblems (r : Registry) (v : Visibility) (state : String) (before : List String) :
    List HandlerDecl → List Diagnostic
  | [] => []
  | d :: rest =>
    (handlerProblem? r v state before d).toList ++ handlerProblems r v state (before ++ [d.name]) rest

def defaultProblem? (o : Outline) (last : Nat) : Option Diagnostic :=
  if (o.names.stateIndex? "default").isSome then none else some (.semantic last .noDefaultState)

def problems (o : Outline) (r : Registry) (v : Visibility) (last : Nat) : List Diagnostic :=
  o.globals.filterMap (globalProblem? r v) ++ o.functions.filterMap (functionProblem? r v)
    ++ (o.defaultProblem? last).toList
    ++ o.states.flatMap fun s => handlerProblems r v s.name [] s.handlers

end Outline

end WorldScript
