import Kfx.Stage.Duration

/-! Settings of a batch run. -/
namespace Kfx

structure Settings where
  /-- How many sources may be worked on at once; zero leaves it to the machine. -/
  jobs : Nat := 0
  /-- Where artifacts go; without it, next to their sources. -/
  outputDir : Option String := none
  sourceExtension : String := "kfx"
  artifactExtension : String := "kfxb"
  /-- How long one stage may take; zero is for ever. -/
  stageTimeoutMs : Nat := 30000
  entryPoint : String := "main"
  /-- Also writes the words of every stage to a file of their own. -/
  emitSpirv : Bool := false
  /-- Stops before anything is compiled or written. -/
  checkOnly : Bool := false
  deriving DecidableEq

namespace Settings

def stageLimit (s : Settings) : Option Duration :=
  if s.stageTimeoutMs = 0 then none else some ⟨s.stageTimeoutMs⟩

/-- How many workers are asked for, on a machine that can run `parallelism` at once. -/
def workerCount (s : Settings) (parallelism : Nat) : Nat :=
  if s.jobs = 0 then parallelism else s.jobs

end Settings

end Kfx
