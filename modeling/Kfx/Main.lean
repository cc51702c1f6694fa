import Kfx.CommandLine
import Kfx.Glsl.Adapter

/-!
# The program

The command line on the files of the machine, over a front end for shader code. Diagnostics and the
failure go to the standard error.
-/
namespace Kfx

def FileFault.ofError : IO.Error → FileFault
  | .noFileOrDirectory .. => .missing
  | .alreadyExists .. => .alreadyThere
  | .inappropriateType _ 20 _ => .notDirectory
  | .inappropriateType _ 21 _ => .isDirectory
  | .invalidArgument _ 36 _ => .nameTooLong
  | e => .other (toString e)

/-- An operation of the system, its failure as a value. -/
def attempt {α : Type} (x : IO α) : IO (Except FileFault α) := do
  try return .ok (← x) catch e => return .error (.ofError e)

/-- A path as the system takes it. -/
def onDisk (path : String) : IO.FS.DirEntry := ⟨path, ""⟩

def diskFiles : Files IO where
  isFile path := do
    let entry := onDisk path
    return (← entry.root.pathExists) && !(← entry.root.isDir)
  isDirectory path := (onDisk path).root.isDir
  readBytes path := attempt do return (← IO.FS.readBinFile path).data.toList
  list path := attempt do
    return ((← (onDisk path).root.readDir).map fun entry => entry.fileName).toList
  makeDirectory path := attempt (IO.FS.createDir path)
  write path bytes := attempt (IO.FS.writeBinFile path ⟨bytes.toArray⟩)

/-- The program as a whole, with its exit code. -/
def program (frontEnd : Glsl.FrontEnd IO) (args : List String) : IO UInt32 := do
  let run : Logged RunError Unit ← runCommand diskFiles (Glsl.compiler frontEnd) 1 args
  for entry in shownLog run.log do
    IO.eprint entry.printed
  match run.result with
  | .ok _ => return 0
  | .error e =>
    IO.eprintln (failureText e.chain)
    return 1

end Kfx
