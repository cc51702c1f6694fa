import Kfx.Stage.Request
import Kfx.Stage.Duration
import Kfx.Effect.Basic
import Kfx.Log

/-!
# Building an effect

Every stage of every pass, in order, goes to the compiler once, and the first failure ends the
build. The words a compiler answers are added to those a stage already has.
-/
namespace Kfx

inductive BuildError
  | refused (pass : String) (index : Nat) (stage : StageKind) (message : String)
  | late (pass : String) (index : Nat) (stage : StageKind) (limit : Duration)
  | unbound (pass : String) (index : Nat) (fragment : String)
  deriving DecidableEq

def BuildError.message : BuildError → String
  | refused pass index stage message =>
    s!"pass `{pass}` stage {index} ({stage.define}): {message}"
  | late pass index stage limit =>
    s!"pass `{pass}` stage {index} ({stage.define}): compiler did not finish within {limit.text}"
  | unbound pass index fragment =>
    s!"pass `{pass}` stage {index}: code fragment `{fragment}` is not bound"

structure BuildContext (m : Type → Type) where
  compiler : Compiler m
  includes : IncludeResolver m
  entryPoint : String := "main"
  limit : Option Duration := none

def Stage.request (s : Stage) (e : Effect) (entryPoint : String) (fragment : CodeFragment) :
    StageRequest where
  source := fragment.source
  stage := s.kind
  entryPoint := entryPoint
  defines := [(s.kind.define, "1")]
  fileName := s!"{e.sourcePath}:{fragment.name}"

def Stage.code? (s : Stage) (e : Effect) : Option CodeFragment :=
  s.fragment.target.bind fun h => h.get? e.codeFragments

/-- What an answer means for the stage number `index` of a pass. Being late is a matter of a time
limit; without one, a compiler that never answers is as good as lost. -/
def Answer.toWords (answer : Answer) (limit : Option Duration) (pass : String) (index : Nat)
    (kind : StageKind) : Except BuildError (List UInt32) :=
  match answer, limit with
  | .words code, _ => .ok code
  | .refused message, _ => .error (.refused pass index kind message)
  | .late, some limit => .error (.late pass index kind limit)
  | _, _ => .error (.refused pass index kind "compiler thread exited without a result")

variable {m : Type → Type} [Monad m]

/-- Stage number `index` of a pass. -/
def Stage.build (ctx : BuildContext m) (e : Effect) (pass : String) (index : Nat) (s : Stage) :
    LoggedT BuildError m Stage := do
  match s.code? e with
  | none => .fail (.unbound pass index s.fragment.name)
  | some fragment =>
    .say .debug
      s!"compiling pass `{pass}` stage {index} ({s.kind.define}) from `{fragment.name}`"
    let answer ← .lift (ctx.compiler (s.request e ctx.entryPoint fragment) ctx.includes)
    match answer.toWords ctx.limit pass index s.kind with
    | .error failure => .fail failure
    | .ok code => return { s with bytecode := s.bytecode ++ code }

/-- The stages of a pass, numbered from `index`. -/
def buildStages (ctx : BuildContext m) (e : Effect) (pass : String) :
    (index : Nat) → List Stage → LoggedT BuildError m (List Stage)
  | _, [] => return []
  | index, s :: rest => do
    let built ← s.build ctx e pass index
    let others ← buildStages ctx e pass (index + 1) rest
    return built :: others

def buildPasses (ctx : BuildContext m) (e : Effect) :
    List Pass → LoggedT BuildError m (List Pass)
  | [] => return []
  | p :: rest => do
    let stages ← buildStages ctx e p.name 0 p.stages
    let others ← buildPasses ctx e rest
    return { p with stages } :: others

def Effect.build (ctx : BuildContext m) (e : Effect) : LoggedT BuildError m Effect := do
  let passes ← buildPasses ctx e e.passes
  return { e with passes }

end Kfx
