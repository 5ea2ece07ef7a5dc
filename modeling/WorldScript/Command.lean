import WorldScript.Capability.Manifest
import WorldScript.Command.Arguments
import WorldScript.Command.Files
import WorldScript.Library
import WorldScript.Machine
import WorldScript.Report
import WorldScript.Script.Compile
import WorldScript.Settings

/-! # Commands

The settings are read and completed by the options, every file is read, and only then is there work:
scripts are checked, or compiled and described, or the registry is described.  What is printed is a
function of the arguments and of the files.
-/

namespace WorldScript.Command

inductive Failure where
  | usage (error : UsageError)
  /-- The settings file cannot be read; `source` says which one. -/
  | settingsFile (source reason : String)
  | settings (source : String) (error : SettingsError)
  | unknownDialect (name : String)
  | script (path reason : String)

def Failure.message : Failure → String
  | .usage error => error.message
  | .settingsFile source reason => s!"failed to load {source}: IO error: {reason}: {reason}"
  | .settings source error => s!"failed to load {source}: {error.text}"
  | .unknownDialect name => s!"unknown dialect '{name}'"
  | .script path reason => s!"failed to read {path}: {reason}"

structure Output where
  exit : UInt32
  stdout : String
  stderr : String

def Failure.output (f : Failure) : Output := ⟨2, "", s!"error: {f.message}\n"⟩

def defaultSettingsFile : String := "gridscript.conf"

def settingsOf (source : String) (file : FileState) : Except Failure Settings :=
  match file.read with
  | .error reason => .error (.settingsFile source reason)
  | .ok text => (Settings.read text).mapError (.settings source)

def baseSettings (files : Files) (config : Option String) : Except Failure Settings :=
  match config with
  | some path => settingsOf s!"config {path}" (files path)
  | none =>
    match files defaultSettingsFile with
    | .missing => .ok .default
    | file => settingsOf defaultSettingsFile file

def withDialects (s : Settings) : List String → Except Failure Settings
  | [] => .ok s
  | name :: rest =>
    match Dialect.ofName? name with
    | none => .error (.unknownDialect name)
    | some d =>
      withDialects { s with dialects := if s.dialects.contains d then s.dialects else s.dialects ++ [d] }
        rest

def settings (files : Files) (o : SharedOptions) : Except Failure Settings := do
  let base ← baseSettings files o.config
  let s ← withDialects base o.dialects
  return { s with extensions := o.extensions.foldl (fun set group => set.insert group ()) s.extensions }

def compileOptions (s : Settings) : CompileOptions :=
  ⟨⟨.ofList s.dialects, s.extensions⟩, s.maxErrors, s.continueAfterError⟩

structure Outcome where
  ok : Bool
  stdout : String
  stderr : String

def stem? (path : String) : Option String :=
  match ((path.splitOn "/").filter fun part => part ≠ "" && part ≠ ".").getLast? with
  | none | some ".." => none
  | some name =>
    match name.toList.reverse.dropWhile (· ≠ '.') with
    | [] | [_] => some name
    | _ :: rest => some (String.ofList rest.reverse)

def reportDocument (r : Report) : Document :=
  .object [("diagnostics", .array (r.entries.map fun e =>
    .object [("kind", .string e.kind.word), ("line", .integer e.line), ("message", .string e.message)]))]

def refused (path : String) (json : Bool) (problems : List Diagnostic) : Outcome :=
  let report := Report.ofDiagnostics problems
  if json then ⟨false, (reportDocument report).compact ++ "\n", ""⟩
  else ⟨false, "", report.render path⟩

def check (registry : Registry) (options : CompileOptions) (json : Bool) (path source : String) :
    Outcome :=
  match Script.check registry options [] source with
  | .ok () => ⟨true, if json then "[]\n" else s!"{path}: ok\n", ""⟩
  | .error problems => refused path json problems

def callSitesDocument (calls : List CallSite) : Document :=
  .array (calls.map fun c =>
    .object [("body", .string c.body), ("line", .integer c.line), ("function", .integer c.function),
      ("name", .string c.name)])

def summary (path : String) (p : Program Chunk) (calls : List CallSite) : String :=
  s!"{path}: {p.globals.length} globals, {p.functions.length} functions, "
    ++ s!"{p.states.length} states, {calls.length} API calls\n"

def chatText (line : ChatLine) : String := s!"[{line.channel.toInt}] {line.text}\n"

def chatOf (registry : Registry) (path : String) (p : Program Chunk) : Except Fault String := do
  let world : World := ⟨p, registry⟩
  let machine ← Machine.create world (.named ((stem? path).getD "Object"))
  let (result, after) := machine.start world
  result
  return String.join (after.store.host.chat.toList.map chatText)

def compile (registry : Registry) (options : CompileOptions) (listing callSites run : Bool)
    (path source : String) : Outcome :=
  match Script.compile registry options [] source with
  | .error problems => refused path false problems
  | .ok p =>
    let calls := p.callSites registry
    let described := summary path p calls
      ++ (if listing then p.listing else "")
      ++ (if callSites then (callSitesDocument calls).pretty ++ "\n" else "")
    if run then
      match chatOf registry path p with
      | .ok chat => ⟨true, described ++ chat, ""⟩
      | .error f => ⟨false, described, s!"{path}: runtime error: {f.message}\n"⟩
    else ⟨true, described, ""⟩

def sources (files : Files) : List String → Except Failure (List (String × String))
  | [] => .ok []
  | path :: rest =>
    match (files path).read with
    | .error reason => .error (.script path reason)
    | .ok text => (sources files rest).map ((path, text) :: ·)

def output (outcomes : List Outcome) : Output where
  exit := if outcomes.all Outcome.ok then 0 else 1
  stdout := String.join (outcomes.map Outcome.stdout)
  stderr := String.join (outcomes.map Outcome.stderr)

def Invocation.run (files : Files) (i : Invocation) : Except Failure Output := do
  let s ← settings files i.options
  let registry := Registry.standard s.longIntegers
  let options := compileOptions s
  match i.action with
  | .check paths json =>
    let texts ← sources files paths
    return output (texts.map fun (path, source) => check registry options json path source)
  | .compile paths listing callSites run =>
    let texts ← sources files paths
    return output (texts.map fun (path, source) =>
      compile registry options listing callSites run path source)
  | .manifest pretty => return ⟨0, (Manifest.ofRegistry registry).document.text pretty ++ "\n", ""⟩

def Invocation.paths (i : Invocation) : List String :=
  i.options.config.getD defaultSettingsFile :: i.action.files

def run (files : Files) (arguments : List String) : Output :=
  match Invocation.ofArguments arguments with
  | .error e => (Failure.usage e).output
  | .ok i =>
    match i.run files with
    | .ok o => o
    | .error f => f.output

end WorldScript.Command
