import WorldScript.Text.CaseTable
import WorldScript.Text.Ranges

/-! # Letter case

Full case mapping: a character may become several characters, and a capital sigma at the end of a
word becomes the final form.
-/

namespace WorldScript.Text

def mapCase (expansions : List (Nat × List Nat)) (shifts : List Shift) (c : Char) : List Char :=
  match expansions.lookup c.toNat with
  | some image => image.map Char.ofNat
  | none => [(shifts.findSome? fun s => s.apply? c.toNat).elim c Char.ofNat]

def upperChar (c : Char) : List Char :=
  if c.toNat < 0x80 then [c.toUpper] else mapCase upperExpansions upperShifts c

def lowerChar (c : Char) : List Char :=
  if c.toNat < 0x80 then [c.toLower] else mapCase lowerExpansions lowerShifts c

def startsCased (text : List Char) : Bool :=
  match text.dropWhile (inRuns ignorableRuns) with
  | [] => false
  | c :: _ => inRuns casedRuns c

def capitalSigma : Char := 'Σ'

def lowerFrom (seen : List Char) : List Char → List Char
  | [] => []
  | c :: rest =>
    let image :=
      if c = capitalSigma then
        if startsCased seen && !startsCased rest then ['ς'] else ['σ']
      else lowerChar c
    image ++ lowerFrom (c :: seen) rest

def toUpper (text : String) : String := String.ofList (text.toList.flatMap upperChar)

def toLower (text : String) : String := String.ofList (lowerFrom [] text.toList)

end WorldScript.Text
