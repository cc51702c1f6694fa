import Kfx.Files.Basic

/-!
# A tree of files as a value

With it go the rules a path is followed by: every part but the last must be a directory that is
there. A path that starts with a slash is followed from the root, any other from the directory the
tree is seen from. Nothing lies above the root. Links and permissions are left out, and so are files
that were written in part: a file is written as a whole or not at all.
-/
namespace Kfx

/-- The names from the root down. -/
abbrev Location := List String

inductive FileNode
  | file (bytes : List UInt8)
  | directory
  deriving DecidableEq

/-- What is at which location, the root apart, which is always a directory. -/
structure FileTree where
  entries : List (Location × FileNode)
  /-- Where a relative path starts. -/
  here : Location

namespace FileTree

def lookup (t : FileTree) : Location → Option FileNode
  | [] => some .directory
  | loc => (t.entries.find? fun e => e.1 == loc).map Prod.snd

def put (t : FileTree) (loc : Location) (node : FileNode) : FileTree :=
  { t with entries := (loc, node) :: t.entries.filter fun e => e.1 ≠ loc }

inductive Place
  | found (loc : Location) (node : FileNode)
  /-- Nothing is there, but the directory above is. -/
  | free (loc : Location)
  | fault (f : FileFault)

/-- A part of a path has at most this many bytes. -/
def nameLimit : Nat := 255

/-- A whole path has fewer bytes than this. -/
def pathLimit : Nat := 4096

/-- Follows the parts of a path from a location. The root is its own parent. -/
def walk (t : FileTree) : Location → List String → Place
  | loc, [] =>
    match t.lookup loc with
    | some node => .found loc node
    | none => .free loc
  | loc, part :: parts =>
    match t.lookup loc with
    | none => .fault .missing
    | some (.file _) => .fault .notDirectory
    | some .directory =>
      if part = "." then t.walk loc parts
      else if part = ".." then t.walk loc.dropLast parts
      else if nameLimit < part.utf8ByteSize then .fault .nameTooLong
      else t.walk (loc ++ [part]) parts

/-- A path that ends in a slash means a directory. -/
def endsInSlash (path : String) : Bool :=
  path.toList.getLast? = some '/'

/-- The parts of a path that are followed, dots among them. -/
def steps (path : String) : List String :=
  ((Path.pieces path.toList).map String.ofList).filter (· ≠ "")

/-- Where some parts of a path lead from where the path starts. -/
def follow (t : FileTree) (path : String) (parts : List String) : Place :=
  if path.toList.contains '\x00' then .fault .zeroByte
  else if pathLimit ≤ path.utf8ByteSize then .fault .nameTooLong
  else if path.isEmpty then .fault .missing
  else t.walk (if Path.isAbsolute path then [] else t.here) parts

/-- Where a path leads, whatever it ends in. -/
def locate (t : FileTree) (path : String) : Place :=
  t.follow path (steps path)

/-- Where a path leads. A file is not found under a path that means a directory. -/
def find (t : FileTree) (path : String) : Place :=
  match t.locate path with
  | .found loc (.file bytes) =>
    if endsInSlash path then .fault .notDirectory else .found loc (.file bytes)
  | place => place

def isFile (t : FileTree) (path : String) : Bool :=
  match t.find path with
  | .found _ (.file _) => true
  | _ => false

def isDirectory (t : FileTree) (path : String) : Bool :=
  match t.find path with
  | .found _ .directory => true
  | _ => false

def readBytes (t : FileTree) (path : String) : Except FileFault (List UInt8) :=
  match t.find path with
  | .found _ (.file bytes) => .ok bytes
  | .found _ .directory => .error .isDirectory
  | .free _ => .error .missing
  | .fault f => .error f

def list (t : FileTree) (path : String) : Except FileFault (List String) :=
  match t.find path with
  | .found loc .directory =>
    .ok (t.entries.filterMap fun e => if e.1.dropLast = loc then e.1.getLast? else none)
  | .found _ (.file _) => .error .notDirectory
  | .free _ => .error .missing
  | .fault f => .error f

def makeDirectory (t : FileTree) (path : String) : Except FileFault FileTree :=
  match t.locate path with
  | .found _ _ => .error .alreadyThere
  | .free loc => .ok (t.put loc .directory)
  | .fault f => .error f

/-- Why a path that means a directory takes no file. Its last part is not looked at, only the
directory that part would be in. -/
def directoryFault (t : FileTree) (path : String) : FileFault :=
  match t.follow path (steps path).dropLast with
  | .found _ .directory => .isDirectory
  | .found _ (.file _) => .notDirectory
  | .free _ => .missing
  | .fault f => f

def write (t : FileTree) (path : String) (bytes : List UInt8) : Except FileFault FileTree :=
  if endsInSlash path then .error (t.directoryFault path)
  else
    match t.locate path with
    | .found _ .directory => .error .isDirectory
    | .found loc (.file _) => .ok (t.put loc (.file bytes))
    | .free loc => .ok (t.put loc (.file bytes))
    | .fault f => .error f

/-- A change that may fail, as a step of a state. -/
def step (change : FileTree → Except FileFault FileTree) :
    StateM FileTree (Except FileFault Unit) := fun t =>
  match change t with
  | .ok t' => (.ok (), t')
  | .error e => (.error e, t)

def files : Files (StateM FileTree) where
  isFile path := return (← get).isFile path
  isDirectory path := return (← get).isDirectory path
  readBytes path := return (← get).readBytes path
  list path := return (← get).list path
  makeDirectory path := step (·.makeDirectory path)
  write path bytes := step (·.write path bytes)

end FileTree

end Kfx
