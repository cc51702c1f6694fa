import Kfx.Effect.Stage

/-!
# Requests to a shader compiler

What is asked of a shader compiler, and what it may answer. Compilers and include files live in a
monad `m` of their own, so the same build can run on real files, on recorded ones, or on plain
functions.
-/
namespace Kfx

structure StageRequest where
  source : String
  stage : StageKind
  entryPoint : String
  /-- Symbols and the text they stand for, in order. -/
  defines : List (String × String)
  /-- Names the code in diagnostics. -/
  fileName : String
  deriving DecidableEq

/-- The text of an include file, or why there is none. -/
abbrev IncludeResolver (m : Type → Type) := String → m (Except String String)

inductive Answer
  | words (code : List UInt32)
  | refused (message : String)
  /-- It stopped and said nothing. -/
  | lost
  /-- It was still at work when its time was over. -/
  | late
  deriving DecidableEq

abbrev Compiler (m : Type → Type) := StageRequest → IncludeResolver m → m Answer

end Kfx
