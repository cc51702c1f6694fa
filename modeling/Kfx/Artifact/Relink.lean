import Kfx.Artifact.Error
import Kfx.Effect.Basic

/-!
# Links of a loaded effect

After loading, every stored index is checked against the array it points into, and links take the
names of what they point at.
-/
namespace Kfx.Artifact

/-- The element an index points at; `what` names the array in diagnostics. -/
def checked {α : Type} (what : String) (items : List α) (h : Handle) : Except FormatError α :=
  match h.get? items with
  | some a => .ok a
  | none => .error (.badIndex what h items.length)

def named {α : Type} [Named α] (what : String) (items : List α) (l : Link) :
    Except FormatError Link :=
  match l.target with
  | none => .ok l
  | some h => do
    let a ← checked what items h
    return { l with name := Named.name a }

def namedOptional {α : Type} [Named α] (what : String) (items : List α) :
    Option Link → Except FormatError (Option Link)
  | none => .ok none
  | some l => some <$> named what items l

/-- The buffer of a binding is in the array of its kind. A sampler has no array, so it may have no
buffer. -/
def checkBinding (e : Effect) (b : ResourceBinding) : Except FormatError Unit :=
  match b.buffer with
  | none => .ok ()
  | some h => do
    let _ ← checked "buffer" ((e.buffersFor b.kind).getD []) h
    return ()

def relinkStage (e : Effect) (s : Stage) : Except FormatError Stage := do
  let fragment ← named "code fragment" e.codeFragments s.fragment
  return { s with fragment }

def relinkPass (e : Effect) (p : Pass) : Except FormatError Pass := do
  let vertexLayout ← namedOptional "vertex layout" e.vertexLayouts p.vertexLayout
  let resources ← namedOptional "resource block" e.localResources p.resources
  let constantBuffer ← namedOptional "constant buffer" e.constantBuffers p.constantBuffer
  let renderState ← namedOptional "render state" e.renderStates p.renderState
  let stages ← p.stages.mapM (relinkStage e)
  return { p with vertexLayout, resources, constantBuffer, renderState, stages }

/-- Bindings first, local blocks before global ones; then the passes. -/
def relink (e : Effect) : Except FormatError Effect := do
  let bindings := (e.localResources ++ e.globalResources).flatMap ResourceBlock.bindings
  bindings.forM (checkBinding e)
  let passes ← e.passes.mapM (relinkPass e)
  return { e with passes }

end Kfx.Artifact
