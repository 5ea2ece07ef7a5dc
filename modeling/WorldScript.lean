import WorldScript.Library
import WorldScript.Machine
import WorldScript.Main
import WorldScript.Script.Compile
import WorldScript.Proofs.Capability.Numbering
import WorldScript.Proofs.Expr.Typing
import WorldScript.Proofs.Code.Typing
import WorldScript.Proofs.Code.Assembly
import WorldScript.Proofs.Body.Typing
import WorldScript.Proofs.Script.Typing
import WorldScript.Proofs.Script.WellFormed
import WorldScript.Proofs.Machine.Instruction
import WorldScript.Proofs.Machine.Typing
import WorldScript.Proofs.Machine.Soundness
import WorldScript.Proofs.Expr.Evaluation
import WorldScript.Proofs.Body.Layout
import WorldScript.Proofs.Body.Refinement
import WorldScript.Proofs.Table
import WorldScript.Proofs.Blame
import WorldScript.Proofs.Capability.Admission
import WorldScript.Proofs.Capability.Lookup
import WorldScript.Proofs.Capability.Search
import WorldScript.Proofs.Token.Bracket
import WorldScript.Proofs.Token.Partition
import WorldScript.Proofs.Token.Printing
import WorldScript.Proofs.Term.Spelling
import WorldScript.Proofs.Term.Leaves
import WorldScript.Proofs.Expr.Resolution
import WorldScript.Proofs.Expr.Overloads
import WorldScript.Proofs.Expr.Vocabulary
import WorldScript.Proofs.Expr.Renaming
import WorldScript.Proofs.Stmt.Leaves
import WorldScript.Proofs.Body.Labels
import WorldScript.Proofs.Body.Simulation
import WorldScript.Proofs.Script.Reading
import WorldScript.Proofs.Script.Words
import WorldScript.Proofs.Script.Simulation
import WorldScript.Proofs.Script.Reports
import WorldScript.Proofs.Script.Checking
import WorldScript.Proofs.Script.Sight
import WorldScript.Proofs.Script.Invisibility
import WorldScript.Proofs.Script.Findings
import WorldScript.Proofs.Body.Isolation
import WorldScript.Proofs.Script.Truncation
import WorldScript.Proofs.Script.Duplicates
import WorldScript.Proofs.Script.Initializers
import WorldScript.Proofs.Machine.Step
import WorldScript.Proofs.Machine.Initialization
import WorldScript.Proofs.Machine.Calls
import WorldScript.Proofs.Machine.Chronicle
import WorldScript.Proofs.Machine.Budget
import WorldScript.Proofs.Machine.Bracketing
import WorldScript.Proofs.Body.Wholeness
import WorldScript.Proofs.Body.Lines
import WorldScript.Proofs.Body.Braces
import WorldScript.Proofs.Body.Sites
import WorldScript.Proofs.Body.Echo
import WorldScript.Proofs.Body.Survey
import WorldScript.Proofs.Body.Placement
import WorldScript.Proofs.Body.Jumps
import WorldScript.Proofs.Expr.Accesses
import WorldScript.Proofs.Stmt.Scoping
import WorldScript.Proofs.Body.Binding
import WorldScript.Proofs.Script.Bodies
import WorldScript.Proofs.Script.Tiling
import WorldScript.Proofs.Script.Directives
import WorldScript.Proofs.Value.Division
import WorldScript.Proofs.Capability.Manifest
import WorldScript.Proofs.Library.Documents
import WorldScript.Proofs.Script.Flatness
import WorldScript.Proofs.Machine.Flatness
import WorldScript.Proofs.Library.Strings
import WorldScript.Proofs.Value.Numerals
import WorldScript.Proofs.Spatial.Quaternion
import WorldScript.Proofs.Script.Signatures
