import WasmToC.Text.Utf8

/-!
# Files and paths

Reading and writing files by name, and a tree of files that is a value. A name is walked step by
step: each step needs a directory to start from, so `x/..` fails where `x` is missing, and `x/.`
fails where `x` is a file.

Nothing is known outside the working directory, apart from what every system has: the directories
that hold it, the root with `/dev` and `/tmp` below, and the null device.

## Main definitions

* `FileAccess` — reading and writing files.
* `PathFault` — why a name leads to no file.
* `Path`, `Location` — a name, and the place it leads to.
* `Directory` — files as a value, with `read` and `write`.
-/

namespace WasmToC

/-- Reading and writing files; a failure is described by its text. -/
structure FileAccess (μ : Type → Type) where
  /-- The bytes of a file. -/
  read : String → μ (Except String (List UInt8))
  /-- Replaces a file by a text. -/
  write : String → String → μ (Except String Unit)

/-- Why a name leads to no file. -/
inductive PathFault where
  /-- Nothing is there. -/
  | missing
  /-- A file stands where a directory is needed. -/
  | notDirectory
  /-- A directory stands where a file is needed. -/
  | isDirectory
  /-- The name, or a step of it, is too long. -/
  | tooLong
  deriving DecidableEq, Repr

/-- How the system words a fault. -/
def PathFault.message : PathFault → String
  | missing => "No such file or directory (os error 2)"
  | notDirectory => "Not a directory (os error 20)"
  | isDirectory => "Is a directory (os error 21)"
  | tooLong => "File name too long (os error 36)"

/-! ## Names -/

/-- A directory that names are read from. -/
inductive Anchor where
  /-- The root of all directories. -/
  | root
  /-- The directory that many levels above the working directory; level zero is the working
  directory itself. -/
  | above (levels : Nat)
  deriving DecidableEq, Repr

/-- The directory that holds an anchor; the root holds itself. -/
def Anchor.parent : Anchor → Anchor
  | root => root
  | above levels => above (levels + 1)

/-- A step of a path. -/
inductive Step where
  /-- Stays in the directory. -/
  | stay
  /-- Goes to the directory that holds this one. -/
  | up
  /-- Goes to what has a name in the directory. -/
  | down (name : String)
  deriving DecidableEq, Repr

namespace Step

/-- The step that a text between slashes stands for. -/
def ofText (text : String) : Step :=
  if text = "." then stay else if text = ".." then up else down text

/-- Whether a step goes down. -/
def isDown : Step → Bool
  | down _ => true
  | _ => false

/-- Whether a step's name has more bytes than the system allows. -/
def isTooLong : Step → Bool
  | down name => 255 < name.utf8ByteSize
  | _ => false

end Step

/-- A name of a file, taken apart. -/
structure Path where
  /-- Where it starts. -/
  start : Anchor
  /-- The steps between its slashes. -/
  steps : List Step
  /-- Whether it ends in a slash. -/
  endsInSlash : Bool
  deriving DecidableEq, Repr

namespace Path

/-- Takes a name apart. Slashes in a row count as one. -/
def ofName (name : String) : Path where
  start := if name.toList.head? = some '/' then .root else .above 0
  steps := ((name.splitOn "/").filter fun text => !text.isEmpty).map Step.ofText
  endsInSlash := name.toList.getLast? = some '/'

/-- Takes a name apart, if the system allows it at all. -/
def ofName? (name : String) : Except PathFault Path :=
  if name.isEmpty then .error .missing
  else if 4096 ≤ name.utf8ByteSize then .error .tooLong
  else .ok (ofName name)

end Path

/-- A place in the tree of directories. -/
structure Location where
  /-- The directory it is described from. -/
  anchor : Anchor
  /-- The names on the way down from there, outermost first. -/
  names : List String
  deriving DecidableEq, Repr

namespace Location

/-- Where a step leads. -/
def take (l : Location) : Step → Location
  | .stay => l
  | .up => if l.names.isEmpty then ⟨l.anchor.parent, []⟩ else ⟨l.anchor, l.names.dropLast⟩
  | .down name => ⟨l.anchor, l.names ++ [name]⟩

/-- Where a path leads when every directory on the way is there. -/
def ofPath (p : Path) : Location := p.steps.foldl take ⟨p.start, []⟩

/-- Whether a place lies strictly below another. -/
def isBelow (l outer : Location) : Bool :=
  l.anchor = outer.anchor && outer.names.length < l.names.length && outer.names.isPrefixOf l.names

/-- The device that is always empty and forgets what is written to it. -/
def nullDevice : Location := ⟨.root, ["dev", "null"]⟩

/-- The directories that every system has below its root. -/
def standing : List Location := [⟨.root, ["dev"]⟩, ⟨.root, ["tmp"]⟩]

end Location

/-! ## Files as a value -/

/-- The files that are known, by location. A directory is there when a file lies below it. -/
abbrev Directory := List (Location × List UInt8)

namespace Directory

/-- Files with the given names, with the directories they need. -/
def ofFiles (files : List (String × List UInt8)) : Directory :=
  files.map fun (name, bytes) => (.ofPath (.ofName name), bytes)

/-- The contents of the file at a place. -/
def file? (d : Directory) (l : Location) : Option (List UInt8) :=
  if l = .nullDevice then some [] else d.lookup l

/-- Whether a place is a directory. -/
def isDirectory (d : Directory) (l : Location) : Bool :=
  l.names.isEmpty || Location.standing.contains l || d.any fun (f, _) => f.isBelow l

/-- Checks that a place is a directory. -/
def checkDirectory (d : Directory) (l : Location) : Except PathFault Unit :=
  if d.isDirectory l then .ok ()
  else if (d.file? l).isSome then .error .notDirectory
  else .error .missing

/-- Takes one step from a place, which has to be a directory. -/
def enter (d : Directory) (l : Location) (s : Step) : Except PathFault Location := do
  d.checkDirectory l
  if s.isTooLong then .error .tooLong else .ok (l.take s)

/-- Takes steps one after the other. -/
def walk (d : Directory) (l : Location) (steps : List Step) : Except PathFault Location :=
  steps.foldlM d.enter l

/-- The bytes of a file. A slash at the end asks for a directory, as a step that stays does. -/
def read (d : Directory) (name : String) : Except PathFault (List UInt8) := do
  let p ← Path.ofName? name
  let l ← d.walk ⟨p.start, []⟩ (if p.endsInSlash then p.steps ++ [.stay] else p.steps)
  match d.file? l with
  | some bytes => .ok bytes
  | none => .error (if d.isDirectory l then .isDirectory else .missing)

/-- Puts bytes at a place. -/
def put (d : Directory) (l : Location) (bytes : List UInt8) : Directory :=
  if l = .nullDevice then d else (l, bytes) :: d.filter fun (f, _) => f ≠ l

/-- Replaces or adds a file. The directory that is to hold it has to be there; then a name that
can only be that of a directory is refused before anything is looked up in it. -/
def write (d : Directory) (name text : String) : Except PathFault Directory := do
  let p ← Path.ofName? name
  let parent ← d.walk ⟨p.start, []⟩ p.steps.dropLast
  d.checkDirectory parent
  match p.steps.getLast? with
  | none => .error .isDirectory
  | some last =>
    if p.endsInSlash || !last.isDown then .error .isDirectory
    else do
      let l ← d.enter parent last
      if d.isDirectory l then .error .isDirectory else .ok (d.put l (Utf8.encode text))

/-- Reading and writing files of a directory that is handed on. -/
def access : FileAccess (StateM Directory) where
  read name := do return ((← get).read name).mapError PathFault.message
  write name text := do
    match (← get).write name text with
    | .ok d =>
      set d
      return .ok ()
    | .error e => return .error e.message

end Directory

end WasmToC
