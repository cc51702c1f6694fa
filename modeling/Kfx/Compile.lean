import Kfx.Artifact.Error
import Kfx.Files.Basic
import Kfx.Load
import Kfx.Stage.Build

/-!
# From a source to a built effect

The source is loaded and every stage goes to the compiler. The source may be a text or a file, and
its include files are looked for beside it.
-/
namespace Kfx

inductive SourceError
  | unreadable (path : String) (fault : FileFault)
  | load (e : LoadError)
  | build (e : BuildError)
  | format (e : FormatError)
  | noDirectory (path : String) (fault : FileFault)
  | unwritable (path : String) (fault : FileFault)
  deriving DecidableEq

/-- What happened and why, the outermost first. -/
def SourceError.chain : SourceError → List String
  | unreadable path fault => [s!"failed to read {path}", fault.message]
  | load e => [e.message]
  | build e => [e.message]
  | format e => [e.message]
  | noDirectory path fault => [s!"failed to create output dir {path}", fault.message]
  | unwritable path fault => [s!"failed to write {path}", fault.message]

def SourceError.message (e : SourceError) : String :=
  ": ".intercalate e.chain

section

variable {m : Type → Type} [Monad m]

/-- Include files are looked for in the directory of the source. -/
def fileIncludes (files : Files m) (source : String) : IncludeResolver m := fun name => do
  let path := Path.join (Path.directoryOf source) name
  match ← files.readText path with
  | .ok text => return .ok text
  | .error fault => return .error s!"cannot include {path}: {fault.message}"

def loadSource (files : Files m) (path : String) : LoggedT SourceError m Effect := do
  let text ← .orFail (.unreadable path) (files.readText path)
  .ofLogged ((Effect.load text path).mapError .load)

/-- A text that came from `path`, loaded and built. -/
def compileSource (ctx : BuildContext m) (source path : String) :
    LoggedT SourceError m Effect := do
  let e ← .ofLogged ((Effect.load source path).mapError .load)
  (e.build ctx).mapError .build

def compileFile (files : Files m) (ctx : BuildContext m) (path : String) :
    LoggedT SourceError m Effect := do
  let e ← loadSource files path
  (e.build ctx).mapError .build

end

end Kfx
