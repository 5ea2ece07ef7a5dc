/-! # Tables in order of their keys -/

namespace WorldScript

variable {κ α : Type}

/-- Entries in increasing order of their keys, each key at most once. -/
structure Table (κ α : Type) where
  entries : List (κ × α)

namespace Table

def empty : Table κ α := ⟨[]⟩

def insertInto [LT κ] [DecidableLT κ] [DecidableEq κ] (key : κ) (value : α) :
    List (κ × α) → List (κ × α)
  | [] => [(key, value)]
  | (k, v) :: rest =>
    if key = k then (key, value) :: rest
    else if key < k then (key, value) :: (k, v) :: rest
    else (k, v) :: insertInto key value rest

def insert [LT κ] [DecidableLT κ] [DecidableEq κ] (t : Table κ α) (key : κ) (value : α) :
    Table κ α := ⟨insertInto key value t.entries⟩

def get? [DecidableEq κ] (t : Table κ α) (key : κ) : Option α :=
  (t.entries.find? fun e => e.1 = key).map Prod.snd

def contains [DecidableEq κ] (t : Table κ α) (key : κ) : Bool := (t.get? key).isSome

def keys (t : Table κ α) : List κ := t.entries.map Prod.fst

def size (t : Table κ α) : Nat := t.entries.length

def isEmpty (t : Table κ α) : Bool := t.entries.isEmpty

/-- The table of a list of entries; the last value of a key counts. -/
def ofList [LT κ] [DecidableLT κ] [DecidableEq κ] (entries : List (κ × α)) : Table κ α :=
  entries.foldl (fun t e => t.insert e.1 e.2) empty

end Table

abbrev NameSet := Table String Unit

def NameSet.ofNames (names : List String) : NameSet := Table.ofList (names.map fun n => (n, ()))

end WorldScript
