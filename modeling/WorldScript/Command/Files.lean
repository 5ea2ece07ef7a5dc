/-! # Files

What a command finds under the name of a file.  A folder answers for every path that starts in it: an
empty part of a path and the part `.` stay where they are, the part `..` goes up, and only through a
folder can a path go on.
-/

namespace WorldScript.Command

inductive FileState where
  | missing
  /-- A folder, which has no text. -/
  | folder
  /-- A path that goes on after a file. -/
  | throughFile
  /-- A path with a name that no folder can hold. -/
  | longName
  | unreadable (reason : String)
  | text (content : String)

def FileState.read : FileState → Except String String
  | .missing => .error "No such file or directory (os error 2)"
  | .folder => .error "Is a directory (os error 21)"
  | .throughFile => .error "Not a directory (os error 20)"
  | .longName => .error "File name too long (os error 36)"
  | .unreadable reason => .error reason
  | .text content => .ok content

abbrev Files := String → FileState

structure Folder where
  entries : List (List String × String)

namespace Folder

def parts (path : String) : List String := path.splitOn "/"

def stays (part : String) : Bool := part = "" || part = "."

def ofFiles (files : List (String × String)) : Folder :=
  ⟨files.map fun (name, content) => ((parts name).filter fun p => !stays p, content)⟩

inductive Spot where
  /-- In the folder itself or in one below it. -/
  | inside (path : List String)
  /-- In a folder of which nothing is known. -/
  | outside
  | atFile (content : String)

def nameLimit : Nat := 255

def spot (f : Folder) (path : List String) : Except FileState Spot :=
  match f.entries.lookup path with
  | some content => .ok (.atFile content)
  | none => if f.entries.any fun e => path.isPrefixOf e.1 then .ok (.inside path) else .error .missing

def step (f : Folder) (s : Spot) (part : String) : Except FileState Spot :=
  match s with
  | .atFile _ => .error .throughFile
  | .outside => if stays part || part = ".." then .ok .outside else .error .missing
  | .inside path =>
    if stays part then .ok s
    else if part = ".." then .ok (if path.isEmpty then .outside else .inside path.dropLast)
    else if nameLimit < part.utf8ByteSize then .error .longName
    else f.spot (path ++ [part])

def start (path : List String) : Spot := if path.head? = some "" then .outside else .inside []

def files (f : Folder) : Files := fun path =>
  if path.isEmpty then .missing
  else
    match (parts path).foldlM f.step (start (parts path)) with
    | .error state => state
    | .ok (.atFile content) => .text content
    | .ok _ => .folder

end Folder

end WorldScript.Command
