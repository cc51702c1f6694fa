import Kfx.Glsl.Include

/-!
# From stage requests to a front end

From a stage request to a front end that knows shader code without include lines, has no geometry
stage, and wants every code to say its version.
-/
namespace Kfx.Glsl

inductive ShaderStage
  | vertex | fragment | compute
  deriving DecidableEq

def ShaderStage.ofKind? : StageKind → Option ShaderStage
  | .vertex => some vertex
  | .fragment => some fragment
  | .compute => some compute
  | .geometry => none

structure Job where
  stage : ShaderStage
  /-- Each symbol once. -/
  defines : List (String × String)
  source : String
  entryPoint : String
  deriving DecidableEq

/-- What a front end can find wrong, each with its own words. -/
inductive Fault
  | parse (detail : String)
  | validation (detail : String)
  | writing (detail : String)
  deriving DecidableEq

def Fault.message : Fault → String
  | parse detail => "GLSL parse failed: " ++ detail
  | validation detail => "GLSL validation failed: " ++ detail
  | writing detail => "SPIR-V writer failed: " ++ detail

abbrev FrontEnd (m : Type → Type) := Job → m (Except Fault (List UInt32))

def isVersionLine (line : List Char) : Bool :=
  "#version".toList.isPrefixOf (Text.dropBlanks line)

/-- The text, under a version line if it has none of its own. -/
def withVersion (text : String) : String :=
  if (Text.lines text.toList).any isVersionLine then text else "#version 450\n" ++ text

/-- Definitions in the order of their symbols; of several for one symbol the last one counts. -/
def settle (defines : List (String × String)) : List (String × String) :=
  let last := defines.foldl (fun kept d => kept.filter (·.1 ≠ d.1) ++ [d]) []
  last.mergeSort fun a b => decide (a.1 ≤ b.1)

variable {m : Type → Type} [Monad m]

/-- The deepest nesting of include files, unless it is said otherwise. -/
def includeLimit : Nat := 16

def compiler (frontEnd : FrontEnd m) (limit : Nat := includeLimit) : Compiler m :=
  fun request resolve => do
    match ShaderStage.ofKind? request.stage with
    | none =>
      return .refused
        s!"{request.fileName}: geometry shaders are not supported by the naga backend"
    | some stage =>
      match ← expandIncludes limit resolve request.source with
      | .error e => return .refused e
      | .ok text =>
        let job : Job :=
          { stage, defines := settle request.defines, source := withVersion text,
            entryPoint := request.entryPoint }
        match ← frontEnd job with
        | .ok code => return .words code
        | .error fault => return .refused s!"{request.fileName}: {fault.message}"

end Kfx.Glsl
