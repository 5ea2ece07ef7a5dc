import WorldScript.Diagnostic

/-! # Sessions

Work on a script notes the problems that it finds and goes on, until the report is full.
-/

namespace WorldScript

/-- Work that notes problems.  It may end early, and then only the problems are left. -/
abbrev Session := EStateM Unit (List Diagnostic)

namespace Session

variable {α β : Type}

def note (limit : Nat) (d : Diagnostic) : Session Unit := do
  modify (· ++ [d])
  if (← get).length < limit then pure () else throw ()

def noteAll (limit : Nat) : List Diagnostic → Session Unit
  | [] => pure ()
  | d :: rest => do
    note limit d
    noteAll limit rest

def require (limit : Nat) : Except Diagnostic α → Session α
  | .ok a => pure a
  | .error d => do
    note limit d
    throw ()

def collect (limit : Nat) (f : α → Except Diagnostic β) : List α → Session (List β)
  | [] => pure []
  | a :: rest =>
    match f a with
    | .ok b => do
      let others ← collect limit f rest
      return b :: others
    | .error d => do
      note limit d
      collect limit f rest

def outcome (work : Session α) : Except (List Diagnostic) α :=
  match work.run [] with
  | .ok a [] => .ok a
  | .ok _ problems => .error problems
  | .error _ problems => .error problems

end Session

end WorldScript
