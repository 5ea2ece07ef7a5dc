import WorldScript.Json.Document
import WorldScript.Number.Reading

/-! # Reading JSON

A document is read strictly.  Of a number with a fraction, an exponent or too many digits, only as many
digits count as fit into 64 bits; they are then scaled by a power of ten in floating point.
-/

namespace WorldScript.Document

/-- The digits at the start of a run that 64 bits can hold: their value and how many they are. -/
def absorb (significand : Nat) : List Char → Nat × Nat
  | [] => (significand, 0)
  | c :: rest =>
    let next := significand * 10 + Number.digitValue c
    if next < UInt64.size then
      let (all, count) := absorb next rest
      (all, count + 1)
    else (significand, 0)

def largestPower : Nat := 308

def powerOfTen (n : Nat) : Float := Number.nearest 1 n

def scaleDown (x : Float) (n : Nat) : Float :=
  if n ≤ largestPower then x / powerOfTen n
  else if x == 0.0 then x
  else scaleDown (x / powerOfTen largestPower) (n - largestPower)
termination_by n
decreasing_by simp [largestPower] at *; omega

def scaleUp (x : Float) (n : Nat) : Option Float :=
  if n ≤ largestPower then
    let scaled := x * powerOfTen n
    if scaled.isInf then none else some scaled
  else if x == 0.0 then some x
  else none

def scaled (significand : Nat) (exponent : Int) : Option Float :=
  match exponent with
  | .ofNat n => scaleUp (Float.ofNat significand) n
  | .negSucc n => some (scaleDown (Float.ofNat significand) (n + 1))

def isGap (c : Char) : Bool := c = ' ' || c = '\n' || c = '\t' || c = '\r'

def skipGap (text : List Char) : List Char := text.dropWhile isGap

theorem skipGap_length (text : List Char) : (skipGap text).length ≤ text.length :=
  (List.dropWhile_sublist isGap).length_le

structure NumberText where
  negative : Bool
  whole : List Char
  fraction : Option (List Char)
  exponent : Option (Bool × List Char)

def fractionText? (text : List Char) : Option (Option (List Char) × List Char) :=
  match text with
  | '.' :: rest =>
    let run := rest.takeWhile Char.isDigit
    if run.isEmpty then none else some (some run, rest.dropWhile Char.isDigit)
  | _ => some (none, text)

def exponentText? (text : List Char) : Option (Option (Bool × List Char) × List Char) :=
  match text with
  | c :: rest =>
    if c = 'e' || c = 'E' then
      let (negative, unsigned) := match rest with
        | '+' :: r => (false, r)
        | '-' :: r => (true, r)
        | r => (false, r)
      let run := unsigned.takeWhile Char.isDigit
      if run.isEmpty then none else some (some (negative, run), unsigned.dropWhile Char.isDigit)
    else some (none, text)
  | [] => some (none, text)

/-- The number at the start of `text`, with what follows.  A number has no leading zeros. -/
def numberText? (text : List Char) : Option (NumberText × List Char) := do
  let (negative, unsigned) := match text with
    | '-' :: rest => (true, rest)
    | rest => (false, rest)
  let whole := unsigned.takeWhile Char.isDigit
  if whole.isEmpty || (whole.head? = some '0' && whole.length ≠ 1) then none
  else
    let (fraction, afterFraction) ← fractionText? (unsigned.dropWhile Char.isDigit)
    let (exponent, rest) ← exponentText? afterFraction
    return (⟨negative, whole, fraction, exponent⟩, rest)

def NumberText.document? (t : NumberText) : Option Document :=
  let (significand, count) := absorb 0 t.whole
  let surplus := t.whole.length - count
  let signed (x : Float) : Document := .float (if t.negative then -x else x)
  if surplus = 0 && t.fraction.isNone && t.exponent.isNone then
    if !t.negative then some (.integer significand)
    else if 0 < significand && significand ≤ Int64.minValue.toInt.natAbs then some (.integer (-significand))
    else some (signed (Float.ofNat significand))
  else
    let (all, places) := absorb significand (t.fraction.getD [])
    let power : Int := t.exponent.elim 0 fun (negative, run) =>
      if negative then -(Number.ofDigits 10 run : Int) else Number.ofDigits 10 run
    (scaled all (surplus - places + power)).map signed

def codeUnit? (text : List Char) : Option (Nat × List Char) :=
  let run := text.take 4
  if run.length = 4 && run.all Number.isHexDigit then some (Number.ofDigits 16 run, text.drop 4) else none

theorem codeUnit?_length {text rest : List Char} {n : Nat} (h : codeUnit? text = some (n, rest)) :
    rest.length ≤ text.length := by
  unfold codeUnit? at h
  grind

/-- The character of an escape with code units at the start of `text`, with what follows.  A character
outside the basic plane takes two units. -/
def escapedUnits? (text : List Char) : Option (Char × List Char) :=
  match codeUnit? text with
  | none => none
  | some (high, rest) =>
    if 0xD800 ≤ high && high < 0xDC00 then
      match rest with
      | '\\' :: 'u' :: more =>
        match codeUnit? more with
        | none => none
        | some (low, after) =>
          if 0xDC00 ≤ low && low < 0xE000 then
            some (Char.ofNat (0x10000 + (high - 0xD800) * 0x400 + (low - 0xDC00)), after)
          else none
      | _ => none
    else if 0xDC00 ≤ high && high < 0xE000 then none
    else some (Char.ofNat high, rest)

theorem escapedUnits?_length {text rest : List Char} {c : Char}
    (h : escapedUnits? text = some (c, rest)) : rest.length ≤ text.length := by
  unfold escapedUnits? at h
  split at h
  · simp at h
  · rename_i high rest' hu
    have h1 := codeUnit?_length hu
    split at h
    · split at h
      · rename_i more
        split at h
        · simp at h
        · rename_i low after hv
          have h2 := codeUnit?_length hv
          simp only [List.length_cons] at h1
          grind
      · simp at h
    · grind

def escaped? (c : Char) : Option Char :=
  match c with
  | '"' => some '"'
  | '\\' => some '\\'
  | '/' => some '/'
  | 'b' => some '\x08'
  | 'f' => some '\x0c'
  | 'n' => some '\n'
  | 'r' => some '\r'
  | 't' => some '\t'
  | _ => none

def stringBody? (text : List Char) : Option (List Char × List Char) :=
  match text with
  | [] => none
  | '"' :: rest => some ([], rest)
  | '\\' :: 'u' :: rest =>
    match h : escapedUnits? rest with
    | none => none
    | some (c, after) =>
      have := escapedUnits?_length h
      (stringBody? after).map fun (cs, last) => (c :: cs, last)
  | '\\' :: e :: rest =>
    match escaped? e with
    | none => none
    | some c => (stringBody? rest).map fun (cs, last) => (c :: cs, last)
  | c :: rest =>
    if c.toNat < 32 || c = '\\' then none
    else (stringBody? rest).map fun (cs, last) => (c :: cs, last)
termination_by text.length

abbrev Reading (α : Type) (text : List Char) := Option { r : α × List Char // r.2.length < text.length }

def shorter {α : Type} (text : List Char) (r : Option (α × List Char)) : Reading α text :=
  match r with
  | some (a, rest) => if h : rest.length < text.length then some ⟨(a, rest), h⟩ else none
  | none => none

def scalar? (text : List Char) : Option (Document × List Char) :=
  match text with
  | 'n' :: 'u' :: 'l' :: 'l' :: rest => some (.null, rest)
  | 't' :: 'r' :: 'u' :: 'e' :: rest => some (.bool true, rest)
  | 'f' :: 'a' :: 'l' :: 's' :: 'e' :: rest => some (.bool false, rest)
  | '"' :: rest => (stringBody? rest).map fun (cs, after) => (.string (String.ofList cs), after)
  | _ => do
    let (number, rest) ← numberText? text
    let d ← number.document?
    return (d, rest)

def fieldName? (text : List Char) : Option (String × List Char) :=
  match skipGap text with
  | '"' :: rest =>
    match stringBody? rest with
    | none => none
    | some (cs, after) =>
      match skipGap after with
      | ':' :: more => some (String.ofList cs, more)
      | _ => none
  | _ => none

mutual

/-- The document at the start of a text, in which arrays and objects nest less than `depth` deep. -/
def value? (depth : Nat) (text : List Char) : Reading Document text :=
  match h : skipGap text with
  | '[' :: rest =>
    have hlen : rest.length < text.length := by
      have := skipGap_length text
      grind
    match depth with
    | 0 | 1 => none
    | depth + 1 =>
      match hr : skipGap rest with
      | ']' :: after =>
        have : after.length < text.length := by
          have := skipGap_length rest
          grind
        some ⟨(.array [], after), this⟩
      | _ => do
        let ⟨(items, after), ha⟩ ← items? depth rest
        return ⟨(.array items, after), Nat.lt_trans ha hlen⟩
  | '\x7b' :: rest =>
    have hlen : rest.length < text.length := by
      have := skipGap_length text
      grind
    match depth with
    | 0 | 1 => none
    | depth + 1 =>
      match hr : skipGap rest with
      | '\x7d' :: after =>
        have : after.length < text.length := by
          have := skipGap_length rest
          grind
        some ⟨(.object [], after), this⟩
      | _ => do
        let ⟨(fields, after), ha⟩ ← fields? depth rest
        return ⟨(.ofFields fields, after), Nat.lt_trans ha hlen⟩
  | found => shorter text (scalar? found)
termination_by (text.length, 1)

def items? (depth : Nat) (text : List Char) : Reading (List Document) text := do
  let ⟨(first, rest), hf⟩ ← value? depth text
  match h : skipGap rest with
  | ']' :: after =>
    have : after.length < text.length := by
      have := skipGap_length rest
      grind
    return ⟨([first], after), this⟩
  | ',' :: more =>
    have hm : more.length < text.length := by
      have := skipGap_length rest
      grind
    let ⟨(others, after), ha⟩ ← items? depth more
    return ⟨(first :: others, after), Nat.lt_trans ha hm⟩
  | _ => none
termination_by (text.length, 2)

def fields? (depth : Nat) (text : List Char) : Reading (List (String × Document)) text := do
  let ⟨(name, body), hn⟩ ← shorter text (fieldName? text)
  let ⟨(first, rest), hf⟩ ← value? depth body
  match h : skipGap rest with
  | '\x7d' :: after =>
    have : after.length < text.length := by
      have := skipGap_length rest
      grind
    return ⟨([(name, first)], after), this⟩
  | ',' :: more =>
    have hm : more.length < text.length := by
      have := skipGap_length rest
      grind
    let ⟨(others, after), ha⟩ ← fields? depth more
    return ⟨((name, first) :: others, after), Nat.lt_trans ha hm⟩
  | _ => none
termination_by (text.length, 2)

end

def depthLimit : Nat := 128

def read? (text : String) : Option Document :=
  match value? depthLimit text.toList with
  | some ⟨(d, rest), _⟩ => if (skipGap rest).isEmpty then some d else none
  | none => none

end WorldScript.Document
