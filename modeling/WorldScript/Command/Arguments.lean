/-! # Arguments of the command line

A command has a name, options of its own and files.  Some options may stand before or after its name;
those after it take the place of the same ones before it.  An argument `--` ends the options.
-/

namespace WorldScript.Command

inductive UsageError where
  | noCommand
  | unknownCommand (name : String)
  | unexpected (argument : String)
  | noValue (option : String)
  | repeated (option : String)
  | noFile

def UsageError.message : UsageError → String
  | .noCommand => "expected 'check', 'compile' or 'manifest'"
  | .unknownCommand name => s!"unknown command '{name}'"
  | .unexpected argument => s!"unexpected argument '{argument}'"
  | .noValue option => s!"option '--{option}' needs a value"
  | .repeated option => s!"option '--{option}' is given twice"
  | .noFile => "expected at least one file"

structure SharedOptions where
  config : Option String
  dialects : List String
  extensions : List String

namespace SharedOptions

def none : SharedOptions := ⟨.none, [], []⟩

def has (name : String) : Bool := name = "config" || name = "dialect" || name = "extension"

def add (o : SharedOptions) (name value : String) : Except UsageError SharedOptions :=
  match name with
  | "config" => if o.config.isSome then .error (.repeated name) else .ok { o with config := some value }
  | "dialect" => .ok { o with dialects := o.dialects ++ [value] }
  | _ => .ok { o with extensions := o.extensions ++ [value] }

def override (before after : SharedOptions) : SharedOptions where
  config := after.config <|> before.config
  dialects := if after.dialects.isEmpty then before.dialects else after.dialects
  extensions := if after.extensions.isEmpty then before.extensions else after.extensions

end SharedOptions

inductive Spelling where
  /-- `--name`, or `--name=value`. -/
  | option (name : String) (value : Option String)
  | separator
  /-- Something else that starts with a dash. -/
  | dashed
  | plain

def Spelling.of (argument : String) : Spelling :=
  match argument.toList with
  | ['-', '-'] => .separator
  | '-' :: '-' :: rest =>
    let name := String.ofList (rest.takeWhile (· ≠ '='))
    match rest.dropWhile (· ≠ '=') with
    | [] => .option name .none
    | _ :: value => .option name (some (String.ofList value))
  | '-' :: _ :: _ => .dashed
  | _ => .plain

def leading (o : SharedOptions) : List String → Except UsageError (SharedOptions × String × List String)
  | [] => .error .noCommand
  | a :: rest =>
    match Spelling.of a with
    | .plain => .ok (o, a, rest)
    | .option name value =>
      if !SharedOptions.has name then .error (.unexpected a)
      else match value with
        | some v => do leading (← o.add name v) rest
        | .none =>
          match rest with
          | [] => .error (.noValue name)
          | v :: more =>
            match Spelling.of v with
            | .plain => do leading (← o.add name v) more
            | _ => .error (.noValue name)
    | _ => .error (.unexpected a)

structure Trailing where
  shared : SharedOptions
  flags : List String
  files : List String

def Trailing.addFlag (t : Trailing) (allowed : List String) (a name : String) :
    Except UsageError Trailing :=
  if !allowed.contains name then .error (.unexpected a)
  else if t.flags.contains name then .error (.repeated name)
  else .ok { t with flags := t.flags ++ [name] }

def trailing (allowed : List String) (t : Trailing) : List String → Except UsageError Trailing
  | [] => .ok t
  | a :: rest =>
    match Spelling.of a with
    | .plain => trailing allowed { t with files := t.files ++ [a] } rest
    | .separator => .ok { t with files := t.files ++ rest }
    | .dashed => .error (.unexpected a)
    | .option name value =>
      if !SharedOptions.has name then
        if value.isSome then .error (.unexpected a)
        else do trailing allowed (← t.addFlag allowed a name) rest
      else match value with
        | some v => do trailing allowed { t with shared := ← t.shared.add name v } rest
        | .none =>
          match rest with
          | [] => .error (.noValue name)
          | v :: more =>
            match Spelling.of v with
            | .plain => do trailing allowed { t with shared := ← t.shared.add name v } more
            | _ => .error (.noValue name)

inductive Action where
  | check (files : List String) (json : Bool)
  | compile (files : List String) (listing callSites run : Bool)
  | manifest (pretty : Bool)

def Action.files : Action → List String
  | .check files _ => files
  | .compile files .. => files
  | .manifest _ => []

def flagsOf? (name : String) : Option (List String) :=
  match name with
  | "check" => some ["json"]
  | "compile" => some ["disassemble", "call-sites", "run"]
  | "manifest" => some ["pretty"]
  | _ => .none

def Action.ofTrailing (name : String) (t : Trailing) : Except UsageError Action :=
  match name, t.files with
  | "manifest", [] => .ok (.manifest (t.flags.contains "pretty"))
  | "manifest", a :: _ => .error (.unexpected a)
  | _, [] => .error .noFile
  | "check", files => .ok (.check files (t.flags.contains "json"))
  | _, files =>
    .ok (.compile files (t.flags.contains "disassemble") (t.flags.contains "call-sites")
      (t.flags.contains "run"))

structure Invocation where
  options : SharedOptions
  action : Action

def Invocation.ofArguments (arguments : List String) : Except UsageError Invocation := do
  let (before, name, rest) ← leading .none arguments
  match flagsOf? name with
  | .none => .error (.unknownCommand name)
  | some flags =>
    let t ← trailing flags ⟨.none, [], []⟩ rest
    return ⟨before.override t.shared, ← Action.ofTrailing name t⟩

end WorldScript.Command
