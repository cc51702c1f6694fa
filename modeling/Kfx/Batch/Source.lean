import Kfx.Artifact.Basic
import Kfx.Compile
import Kfx.Settings.Basic

/-!
# One source of a batch

The source is read, loaded, built and written as an artifact. Nothing is written before the artifact
is complete.
-/
namespace Kfx

/-- What became of a source that did not fail. -/
inductive Outcome
  | written (artifact : String)
  | checked
  deriving DecidableEq

section

variable {m : Type → Type} [Monad m]

def wordsToBytes (words : List UInt32) : List UInt8 :=
  words.flatMap Codec.wordBytes

namespace Settings

def outputFor (s : Settings) (source : String) : String :=
  s.outputDir.getD (Path.directoryOf source)

/-- What the files made from a source are called. A source without a file name goes by the name of
its effect. -/
def stemFor (source : String) (e : Effect) : String :=
  (Path.stem? source).getD e.name

def artifactFor (s : Settings) (source : String) (e : Effect) : String :=
  Path.join (s.outputFor source) s!"{stemFor source e}.{s.artifactExtension}"

def dumpFor (s : Settings) (source : String) (e : Effect) (pass : Pass) (stage : Stage) :
    String :=
  Path.join (s.outputFor source) s!"{stemFor source e}.{pass.name}.{stage.kind.shortName}.spv"

/-- The files with the words of every stage, in order. -/
def dumps (s : Settings) (source : String) (e : Effect) : List (String × List UInt8) :=
  e.passes.flatMap fun p => p.stages.map fun st =>
    (s.dumpFor source e p st, wordsToBytes st.bytecode)

def buildContext (s : Settings) (files : Files m) (compiler : Compiler m) (source : String) :
    BuildContext m where
  compiler := compiler
  includes := fileIncludes files source
  entryPoint := s.entryPoint
  limit := s.stageLimit

end Settings

/-- Writes files in order up to the first failure. -/
def writeAll (files : Files m) : List (String × List UInt8) → LoggedT SourceError m Unit
  | [] => return ()
  | (path, bytes) :: rest => do
    .orFail (.unwritable path) (files.write path bytes)
    writeAll files rest

/-- A source from reading to writing. -/
def compileOne (files : Files m) (compiler : Compiler m) (s : Settings) (source : String) :
    LoggedT SourceError m Outcome := do
  let e ← loadSource files source
  if s.checkOnly then
    .say .info s!"[check] {source}: ok ({e.passes.length} passes)"
    return .checked
  let built ← (e.build (s.buildContext files compiler source)).mapError .build
  let bytes ← .orFail .format (pure built.serialize)
  let directory := s.outputFor source
  .orFail (.noDirectory directory) (files.makeDirectories directory)
  let artifact := s.artifactFor source built
  .orFail (.unwritable artifact) (files.write artifact bytes)
  if s.emitSpirv then writeAll files (s.dumps source built)
  .say .info s!"{source} -> {artifact} ({bytes.length} bytes)"
  return .written artifact

end

end Kfx
