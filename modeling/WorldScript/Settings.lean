import WorldScript.Dialect
import WorldScript.Number.Reading
import WorldScript.Table
import WorldScript.Text.Blank
import WorldScript.Text.LetterCase

/-! # Settings

Settings are lines `key = value`.  Empty lines and lines that start with `#` say nothing, and neither
do keys that have no meaning here.
-/

namespace WorldScript

structure Settings where
  /-- Dialects of every script, in the order they are named. -/
  dialects : List Dialect
  /-- Extension groups of every script. -/
  extensions : NameSet
  longIntegers : Bool
  maxErrors : Nat
  continueAfterError : Bool
  logLevel : String

inductive SettingsCause where
  | noEquals (text : String)
  | unknownDialect (name : String)
  | noDialect
  | notPositive (value : String)
  | notFlag (key value : String)

def SettingsCause.message : SettingsCause → String
  | .noEquals text => s!"expected 'key = value', found '{text}'"
  | .unknownDialect name => s!"unknown dialect '{name}'"
  | .noDialect => "'dialects' needs at least one dialect"
  | .notPositive value => s!"'max_errors' must be a positive number, found '{value}'"
  | .notFlag key value => s!"'{key}' must be true or false, found '{value}'"

structure SettingsError where
  line : Nat
  cause : SettingsCause

def SettingsError.text (e : SettingsError) : String :=
  s!"Configuration error: line {e.line}: {e.cause.message}"

namespace Settings

def default : Settings where
  dialects := [.lsl]
  extensions := .empty
  longIntegers := false
  maxErrors := 20
  continueAfterError := true
  logLevel := "info"

def itemsOf (value : String) : List String := Text.pieces (fun c => c = ',' || Text.isBlank c) value

def flag (key value : String) : Except SettingsCause Bool :=
  let word := Text.toLower value
  if ["true", "yes", "on", "1"].contains word then .ok true
  else if ["false", "no", "off", "0"].contains word then .ok false
  else .error (.notFlag key value)

def positive (value : String) : Except SettingsCause Nat :=
  let run := match value.toList with
    | '+' :: rest => rest
    | rest => rest
  let n := Number.ofDigits 10 run
  if run.all Char.isDigit && 0 < n && n < UInt64.size then .ok n else .error (.notPositive value)

def dialectsOf (found : List Dialect) : List String → Except SettingsCause (List Dialect)
  | [] => .ok found
  | name :: rest =>
    match Dialect.ofName? name with
    | none => .error (.unknownDialect name)
    | some d => dialectsOf (if found.contains d then found else found ++ [d]) rest

def set (s : Settings) (key value : String) : Except SettingsCause Settings :=
  match key with
  | "dialects" => do
    let dialects ← dialectsOf [] (itemsOf value)
    if dialects.isEmpty then .error .noDialect else .ok { s with dialects }
  | "extensions" => .ok { s with extensions := NameSet.ofNames (itemsOf value) }
  | "long_integers" => do
    let longIntegers ← flag key value
    return { s with longIntegers }
  | "max_errors" => do
    let maxErrors ← positive value
    return { s with maxErrors }
  | "continue_after_error" => do
    let continueAfterError ← flag key value
    return { s with continueAfterError }
  | "log_level" => .ok { s with logLevel := Text.toLower value }
  | _ => .ok s

def readLine (s : Settings) (line : String) : Except SettingsCause Settings :=
  let text := Text.trim line
  if text.isEmpty || text.toList.head? = some '#' then .ok s
  else
    let key := text.toList.takeWhile (· ≠ '=')
    match text.toList.dropWhile (· ≠ '=') with
    | [] => .error (.noEquals text)
    | _ :: value => s.set (Text.trim (String.ofList key)) (Text.trim (String.ofList value))

def readLines (s : Settings) (number : Nat) : List String → Except SettingsError Settings
  | [] => .ok s
  | line :: rest =>
    match s.readLine line with
    | .error cause => .error ⟨number, cause⟩
    | .ok next => next.readLines (number + 1) rest

def read (text : String) : Except SettingsError Settings := default.readLines 1 (Text.lines text)

end Settings

end WorldScript
