import Kfx.Proofs.Artifact.RoundTrip
import Kfx.Proofs.Batch.Course
import Kfx.Proofs.Compile.Fidelity
import Kfx.Proofs.Grammar.Recognition.Source
import Kfx.Proofs.Grammar.Simulation
import Kfx.Proofs.Resolution.Frame

/-!
# Sources that were written over

A job may write where another source of its batch is. What it writes there is an artifact or the
words of a stage, and neither can be loaded again: each starts with characters that no source starts
with. Of the words this holds because a shader compiler answers SPIR-V, which starts with a word of
its own.
-/
namespace Kfx

/-- No stage has words yet. -/
def Pass.Unbuilt (p : Pass) : Prop :=
  ∀ st ∈ p.stages, st.bytecode = []

theorem Pass.Unbuilt.foldl_add {p : Pass} (h : p.Unbuilt) (entries : List PassEntry) :
    (entries.foldl .add p).Unbuilt := by
  induction entries generalizing p with
  | nil => exact h
  | cons x entries ih =>
    refine ih ?_
    cases x with
    | link sort name => cases sort <;> exact h
    | stage kind name => exact List.forall_mem_append.mpr ⟨h, by simp⟩

/-- A definition of something else than a pass, or of one that was not built. -/
def Definition.Unbuilt (d : Definition) : Prop :=
  ∀ p, d = .pass p → p.Unbuilt

section

variable {Nested : Grammar.Phrase (List Definition)} {ps : List Grammar.Piece}
  {ds : List Definition}

end

section

variable {ctx : BuildContext (StateM FileTree)} {e : Effect} {pass : String} {t t' : FileTree}

end

end Kfx
