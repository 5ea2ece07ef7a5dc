import WorldScript.Diagnostic

/-! # Reports

What a refused script is told: its diagnostics in the order in which they were found.
-/

namespace WorldScript

structure ReportEntry where
  kind : DiagnosticKind
  line : Nat
  message : String
deriving DecidableEq

def Diagnostic.entry (d : Diagnostic) : ReportEntry := ⟨d.cause.kind, d.line, d.cause.message⟩

def ReportEntry.text (e : ReportEntry) : String := s!"line {e.line}: {e.kind.text}: {e.message}"

structure Report where
  entries : List ReportEntry
deriving DecidableEq

namespace Report

def ofDiagnostics (ds : List Diagnostic) : Report := ⟨ds.map Diagnostic.entry⟩

def summary (r : Report) : String := s!"compilation failed with {r.entries.length} diagnostic(s)"

def render (r : Report) (origin : String) : String :=
  String.join (r.entries.map fun e => s!"{origin}:{e.line}: {e.kind.text}: {e.message}\n")

def hasInternal (r : Report) : Bool := r.entries.any fun e => e.kind = .internal

def errorText (r : Report) : String :=
  let first := (r.entries.head?.map ReportEntry.text).getD "no diagnostics"
  s!"Compile error: {r.summary} (first: {first})"

end Report

end WorldScript
