import Kfx.Glsl.Adapter
import Kfx.Proofs.Batch.Overwritten

/-!
# Checking sources against compiling them

A check reads and loads a source and does nothing else; it fails just where a full run would fail to
load the source, and such a run writes nothing either. So a source that a full run writes passes its
check. For a whole batch this takes one more fact: a source that a job wrote over can no longer be
loaded, since neither an artifact nor SPIR-V is a source.
-/
namespace Kfx

open Kfx.Path

section

variable {compiler : Compiler (StateM FileTree)} {s : Settings} {source : String}
  {t t' : FileTree} {ws : List (String × List UInt8)} {result : Except SourceError Outcome}

variable {other : String}

section

variable {outcome : Nat → Except SourceError Outcome} {jobs : List (String × Nat)}

end

def Settings.checking (s : Settings) : Settings := { s with checkOnly := true }

def Settings.compiling (s : Settings) : Settings := { s with checkOnly := false }

section

variable (compiler : Compiler (StateM FileTree)) (s : Settings) (source : String) (t : FileTree)

variable {compiler source t}

end

end

/-! The compiler of the program meets the conditions where its front end does. -/
section

variable {frontEnd : Glsl.FrontEnd (StateM FileTree)} {resolve : IncludeResolver (StateM FileTree)}

end

/-- Sources, artifacts and the words of stages all have one extension and go to one place. -/
def allAlike : Settings where
  sourceExtension := "spv"
  artifactExtension := "spv"
  emitSpirv := true

/-- The words of the pass `t` of the first source go where the other source is. -/
def wordsOverSource (text : String) : FileTree :=
  twoSources "a.spv" "Pass t \x7b FragmentShader F \x7d GLSL F \x7b\x7d" "a.t.frag.spv" text []

/-- The report on two sources. -/
theorem result_runBatch_pair (compiler : Compiler (StateM FileTree)) (s : Settings)
    (parallelism : Nat) {path x y : String} {t : FileTree}
    (hsources : (collectSources FileTree.files path s.sourceExtension).run t = (.ok [x, y], t)) :
    ((runBatch FileTree.files compiler s parallelism path).run t).1.result =
      .ok (([⟨0, x, (runJob compiler s x t).1.result⟩,
        ⟨1, y, (runJob compiler s y (runJob compiler s x t).2).1.result⟩] : List Delivery).foldl
          Report.add {}) := by
  obtain ⟨outcome, htaken, hresult⟩ := runBatch_run compiler s parallelism hsources (by simp)
  generalize ((runBatch FileTree.files compiler s parallelism path).run t).2 = t' at htaken
  cases htaken with
  | cons hjob hanswer hrest =>
    cases hrest with
    | cons hjob' hanswer' _ =>
      rw [hresult, hjob, hjob', hanswer, hanswer']
      rfl

/-- Every stage comes to a word of four blanks. -/
def blankCompiler : Compiler (StateM FileTree) := fun _ _ => return .words [0x20202020]

/-- Words that are not SPIR-V can be a source, and here they replace one that fails its check. -/
theorem blankWords_unchecked : ∃ r r',
    ((runBatch FileTree.files blankCompiler allAlike.compiling 2 "in").run
      (wordsOverSource "\x7d")).1.result = .ok r ∧
    ((runBatch FileTree.files blankCompiler allAlike.checking 2 "in").run
      (wordsOverSource "\x7d")).1.result = .ok r' ∧
    r.written = ["in/a.spv", "in/a.t.frag.spv"] ∧ r'.checked = ["in/a.spv"] := by
  have hsources := collectSources_twoSources (wordsOverSource "\x7d") "a.spv" "a.t.frag.spv" "spv"
    (by decide +kernel) (by decide +kernel) (by decide +kernel) (by decide)
  refine ⟨_, _, result_runBatch_pair blankCompiler allAlike.compiling 2 hsources,
    result_runBatch_pair blankCompiler allAlike.checking 2 hsources, ?_, ?_⟩
  · decide +kernel
  · decide +kernel

end Kfx
