import Kfx.Artifact.Layout
import Kfx.Proofs.Artifact.Codec

/-!
# The laws of the layout

An effect can be written when its texts and lists can be counted; what was written can be read when
its masks hold known stages only; and what comes back has lost the names of its links and the links
that had no target.
-/
namespace Kfx

open Codec

instance : LawfulChoice DataKind where
  nodup := by decide
  complete a := by cases a <;> decide
  small := by decide

instance : LawfulChoice InputRate where
  nodup := by decide
  complete a := by cases a <;> decide
  small := by decide

instance : LawfulChoice ResourceKind where
  nodup := by decide
  complete a := by cases a <;> decide
  small := by decide

instance : LawfulChoice StageKind where
  nodup := by decide
  complete a := by cases a <;> decide
  small := by decide

instance : LawfulChoice CullMode where
  nodup := by decide
  complete a := by cases a <;> decide
  small := by decide

instance : LawfulChoice CompareOp where
  nodup := by decide
  complete a := by cases a <;> decide
  small := by decide

instance : LawfulChoice BlendFactor where
  nodup := by decide
  complete a := by cases a <;> decide
  small := by decide

instance : LawfulChoice BlendOp where
  nodup := by decide
  complete a := by cases a <;> decide
  small := by decide

instance : LawfulChoice PolygonMode where
  nodup := by decide
  complete a := by cases a <;> decide
  small := by decide

def VertexLayout.Fits (v : VertexLayout) : Prop :=
  TextFits v.name ∧ ListFits Anything v.attributes ∧ ListFits Anything v.bindings

def ResourceBlock.Fits (block : ResourceBlock) : Prop :=
  TextFits block.name ∧ ListFits (fun b => TextFits b.name) block.bindings

def Buffer.Fits (b : Buffer) : Prop :=
  TextFits b.name ∧ ListFits (fun f => TextFits f.name) b.fields

def RenderState.Fits (s : RenderState) : Prop :=
  TextFits s.name

def CodeFragment.Fits (f : CodeFragment) : Prop :=
  TextFits f.name ∧ TextFits f.source

def Stage.Fits (s : Stage) : Prop :=
  ListFits Anything s.bytecode

def Pass.Fits (p : Pass) : Prop :=
  TextFits p.name ∧ ListFits Stage.Fits p.stages

/-- Every text, every array and every stage's code can be counted by a word. The names of links are
not written and may be of any length. -/
structure Effect.Fits (e : Effect) : Prop where
  name : TextFits e.name
  sourcePath : TextFits e.sourcePath
  vertexLayouts : ListFits VertexLayout.Fits e.vertexLayouts
  localResources : ListFits ResourceBlock.Fits e.localResources
  globalResources : ListFits ResourceBlock.Fits e.globalResources
  constantBuffers : ListFits Buffer.Fits e.constantBuffers
  uniformBuffers : ListFits Buffer.Fits e.uniformBuffers
  storageBuffers : ListFits Buffer.Fits e.storageBuffers
  renderStates : ListFits RenderState.Fits e.renderStates
  codeFragments : ListFits CodeFragment.Fits e.codeFragments
  passes : ListFits Pass.Fits e.passes

def ResourceBlock.MasksKnown (block : ResourceBlock) : Prop :=
  ∀ b ∈ block.bindings, b.stages.IsKnown

def Buffer.MasksKnown (b : Buffer) : Prop :=
  ∀ f ∈ b.fields, ∀ m ∈ f.stages, m.IsKnown

/-- No mask of a binding or of a field has a bit that belongs to no stage. -/
structure Effect.MasksKnown (e : Effect) : Prop where
  localResources : ∀ block ∈ e.localResources, block.MasksKnown
  globalResources : ∀ block ∈ e.globalResources, block.MasksKnown
  constantBuffers : ∀ b ∈ e.constantBuffers, b.MasksKnown
  uniformBuffers : ∀ b ∈ e.uniformBuffers, b.MasksKnown
  storageBuffers : ∀ b ∈ e.storageBuffers, b.MasksKnown

/-- What an artifact keeps of a link that need not be there. -/
def storedLink (l : Option Link) : Option Link :=
  (l.bind Link.target).map fun h => ⟨"", some h⟩

def Stage.stored (s : Stage) : Stage :=
  { s with fragment := ⟨"", s.fragment.target⟩ }

def Pass.stored (p : Pass) : Pass :=
  { p with
    vertexLayout := storedLink p.vertexLayout
    resources := storedLink p.resources
    constantBuffer := storedLink p.constantBuffer
    renderState := storedLink p.renderState
    stages := p.stages.map Stage.stored }

def Effect.stored (e : Effect) : Effect :=
  { e with passes := e.passes.map Pass.stored }

namespace Artifact

theorem law_dataType : dataType.Law Anything Anything id :=
  (law_choice.seq law_word).imap (fun _ => rfl) (by simp [Anything]) (by simp [Anything])
    (fun _ => rfl)

theorem law_vertexAttribute : vertexAttribute.Law Anything Anything id :=
  (law_dataType.seq <| law_word.seq <| law_word.seq law_word).imap (fun _ => rfl)
    (by simp [Anything]) (by simp [Anything]) (fun _ => rfl)

theorem law_vertexBinding : vertexBinding.Law Anything Anything id :=
  (law_word.seq <| law_word.seq law_choice).imap (fun _ => rfl)
    (by simp [Anything]) (by simp [Anything]) (fun _ => rfl)

theorem law_vertexLayout : vertexLayout.Law VertexLayout.Fits Anything id :=
  (law_text.seq <| law_vertexAttribute.list.seq law_vertexBinding.list).imap (fun _ => rfl)
    (fun _ => Iff.rfl) (by simp [Anything]) (by simp)

theorem law_resourceBinding :
    resourceBinding.Law (fun b => TextFits b.name) (fun b => b.stages.IsKnown) id :=
  (law_text.seq <| law_choice.seq <| law_mask.seq <| law_word.seq <| law_word.seq <|
    law_word.optional.seq law_word.optional).imap (fun _ => rfl)
    (by simp [Anything]) (by simp [Anything]) (by simp)

theorem law_resourceBlock :
    resourceBlock.Law ResourceBlock.Fits ResourceBlock.MasksKnown id :=
  (law_text.seq law_resourceBinding.list).imap (fun _ => rfl)
    (fun _ => Iff.rfl) (by simp [Anything, ResourceBlock.MasksKnown]) (by simp)

theorem law_bufferField :
    bufferField.Law (fun f => TextFits f.name) (fun f => ∀ m ∈ f.stages, m.IsKnown) id :=
  (law_dataType.seq <| law_text.seq law_mask.optional).imap (fun _ => rfl)
    (by simp [Anything]) (by simp [Anything]) (by simp)

theorem law_buffer : buffer.Law Buffer.Fits Buffer.MasksKnown id :=
  (law_text.seq law_bufferField.list).imap (fun _ => rfl)
    (fun _ => Iff.rfl) (by simp [Anything, Buffer.MasksKnown]) (by simp)

theorem law_blendMode : blendMode.Law Anything Anything id :=
  ((law_flag "blend enable").seq <| law_choice.seq <| law_choice.seq <| law_choice.seq <|
    law_choice.seq <| law_choice.seq law_choice).imap (fun _ => rfl)
    (by simp [Anything]) (by simp [Anything]) (fun _ => rfl)

theorem law_renderState : renderState.Law RenderState.Fits Anything id :=
  (law_text.seq <| law_choice.seq <| law_choice.seq <| (law_flag "depth write").seq <|
    law_blendMode.seq <| law_choice.seq law_word).imap (fun _ => rfl)
    (by simp [Anything, RenderState.Fits]) (by simp [Anything]) (fun _ => rfl)

theorem law_codeFragment : codeFragment.Law CodeFragment.Fits Anything id :=
  (law_text.seq law_text).imap (fun _ => rfl)
    (fun _ => Iff.rfl) (by simp [Anything]) (fun _ => rfl)

theorem law_link : link.Law Anything Anything storedLink :=
  law_word.optional.imap (by intro o; cases o <;> rfl) (by simp [Anything]) (by simp [Anything])
    (by simp [storedLink])

theorem law_fragmentLink : fragmentLink.Law Anything Anything (fun l => ⟨"", l.target⟩) :=
  law_word.optional.imap (fun _ => rfl) (by simp [Anything]) (by simp [Anything]) (by simp)

theorem law_stage : stage.Law Stage.Fits Anything Stage.stored :=
  (law_choice.seq <| law_fragmentLink.seq law_word.list).imap (fun _ => rfl)
    (by simp [Anything, Stage.Fits]) (by simp [Anything]) (by simp [Stage.stored])

theorem law_pass : pass.Law Pass.Fits Anything Pass.stored :=
  (law_text.seq <| law_link.seq <| law_link.seq <| law_link.seq <| law_link.seq
    law_stage.list).imap (fun _ => rfl)
    (by simp [Anything, Pass.Fits]) (by simp [Anything]) (fun _ => rfl)

theorem law_effect : effect.Law Effect.Fits Effect.MasksKnown Effect.stored :=
  (law_text.seq <| law_text.seq <| law_vertexLayout.list.seq <| law_resourceBlock.list.seq <|
    law_resourceBlock.list.seq <| law_buffer.list.seq <| law_buffer.list.seq <|
    law_buffer.list.seq <| law_renderState.list.seq <| law_codeFragment.list.seq
    law_pass.list).imap (fun _ => rfl)
    (fun _ =>
      ⟨fun ⟨h1, h2, h3, h4, h5, h6, h7, h8, h9, h10, h11⟩ =>
        ⟨h1, h2, h3, h4, h5, h6, h7, h8, h9, h10, h11⟩,
      fun ⟨h1, h2, h3, h4, h5, h6, h7, h8, h9, h10, h11⟩ =>
        ⟨h1, h2, h3, h4, h5, h6, h7, h8, h9, h10, h11⟩⟩)
    (fun _ =>
      ⟨fun ⟨h1, h2, h3, h4, h5⟩ => by simp [Anything]; exact ⟨h1, h2, h3, h4, h5⟩,
      fun h => by simp [Anything] at h; exact ⟨h.1, h.2.1, h.2.2.1, h.2.2.2.1, h.2.2.2.2⟩⟩)
    (by simp [Effect.stored])

end Artifact

end Kfx
