import Kfx.Path

/-!
# Access to files

What a file system can do is a record of operations in a monad `m`, so the same program runs on a
disk and on a tree of files held as a value.
-/
namespace Kfx

inductive FileFault
  | missing
  | alreadyThere
  | notDirectory
  | isDirectory
  | nameTooLong
  | zeroByte
  | notText
  | other (text : String)
  deriving DecidableEq

def FileFault.message : FileFault → String
  | missing => "No such file or directory (os error 2)"
  | alreadyThere => "File exists (os error 17)"
  | notDirectory => "Not a directory (os error 20)"
  | isDirectory => "Is a directory (os error 21)"
  | nameTooLong => "File name too long (os error 36)"
  | zeroByte => "file name contained an unexpected NUL byte"
  | notText => "stream did not contain valid UTF-8"
  | other text => text

structure Files (m : Type → Type) where
  isFile : String → m Bool
  isDirectory : String → m Bool
  readBytes : String → m (Except FileFault (List UInt8))
  /-- The names in a directory, in any order. -/
  list : String → m (Except FileFault (List String))
  /-- Makes one directory, whose parent must be there. -/
  makeDirectory : String → m (Except FileFault Unit)
  /-- Makes or replaces a file. -/
  write : String → List UInt8 → m (Except FileFault Unit)

namespace Files

variable {m n : Type → Type}

def lift (files : Files m) (up : {α : Type} → m α → n α) : Files n where
  isFile path := up (files.isFile path)
  isDirectory path := up (files.isDirectory path)
  readBytes path := up (files.readBytes path)
  list path := up (files.list path)
  makeDirectory path := up (files.makeDirectory path)
  write path bytes := up (files.write path bytes)

variable [Monad m]

def readText (files : Files m) (path : String) : m (Except FileFault String) := do
  match ← files.readBytes path with
  | .error e => return .error e
  | .ok bytes =>
    match String.fromUTF8? ⟨bytes.toArray⟩ with
    | some s => return .ok s
    | none => return .error .notText

/-- A directory that is already there is as good as a new one. -/
def settleDirectory (files : Files m) (path : String) :
    Except FileFault Unit → m (Except FileFault Unit)
  | .ok _ => return .ok ()
  | .error e => do
    if ← files.isDirectory path then return .ok ()
    return .error e

/-- Makes a directory and those above it that are missing. `depth` bounds the number of directories
above. -/
def makeDirectoriesWithin (files : Files m) : (depth : Nat) → String → m (Except FileFault Unit)
  | 0, _ => return .error (.other "failed to create whole tree")
  | depth + 1, path => do
    if path.isEmpty then return .ok ()
    match ← files.makeDirectory path with
    | .error .missing =>
      match Path.parent? path with
      | none => return .error (.other "failed to create whole tree")
      | some above =>
        match ← makeDirectoriesWithin files depth above with
        | .error e => return .error e
        | .ok _ => settleDirectory files path (← files.makeDirectory path)
    | result => settleDirectory files path result

/-- Makes a directory with all directories above it. A parent has a shorter path, so the length of
the path bounds their number. -/
def makeDirectories (files : Files m) (path : String) : m (Except FileFault Unit) :=
  makeDirectoriesWithin files (path.length + 1) path

end Files

end Kfx
