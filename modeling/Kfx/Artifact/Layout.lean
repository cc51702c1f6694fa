import Kfx.Artifact.Codec
import Kfx.Effect.Basic

/-!
# The layout of an effect in an artifact

Definition by definition, in the order of the effect. A reference is stored as its index alone: the
name of a link is left out and comes back empty, and a link without a target is stored as no link.
-/
namespace Kfx.Artifact

open Codec

def dataType : Codec DataType :=
  (choice.seq word).imap (fun (kind, count) => ⟨kind, count⟩) fun t => (t.kind, t.count)

def vertexAttribute : Codec VertexAttribute :=
  (dataType.seq <| word.seq <| word.seq word).imap
    (fun (format, binding, location, offset) => ⟨format, binding, location, offset⟩)
    fun a => (a.format, a.binding, a.location, a.offset)

def vertexBinding : Codec VertexBinding :=
  (word.seq <| word.seq choice).imap
    (fun (binding, stride, rate) => ⟨binding, stride, rate⟩)
    fun b => (b.binding, b.stride, b.rate)

def vertexLayout : Codec VertexLayout :=
  (text.seq <| vertexAttribute.list.seq vertexBinding.list).imap
    (fun (name, attributes, bindings) => ⟨name, attributes, bindings⟩)
    fun v => (v.name, v.attributes, v.bindings)

def resourceBinding : Codec ResourceBinding :=
  (text.seq <| choice.seq <| mask.seq <| word.seq <| word.seq <| word.optional.seq
    word.optional).imap
    (fun (name, kind, stages, binding, set, size, buffer) =>
      ⟨name, kind, stages, binding, set, size, buffer⟩)
    fun b => (b.name, b.kind, b.stages, b.binding, b.set, b.size, b.buffer)

def resourceBlock : Codec ResourceBlock :=
  (text.seq resourceBinding.list).imap (fun (name, bindings) => ⟨name, bindings⟩)
    fun b => (b.name, b.bindings)

def bufferField : Codec BufferField :=
  (dataType.seq <| text.seq mask.optional).imap
    (fun (type, name, stages) => ⟨type, name, stages⟩)
    fun f => (f.type, f.name, f.stages)

def buffer : Codec Buffer :=
  (text.seq bufferField.list).imap (fun (name, fields) => ⟨name, fields⟩)
    fun b => (b.name, b.fields)

def blendMode : Codec BlendMode :=
  ((flag "blend enable").seq <| choice.seq <| choice.seq <| choice.seq <| choice.seq <|
    choice.seq choice).imap
    (fun (enabled, newColor, oldColor, newAlpha, oldAlpha, colorOp, alphaOp) =>
      ⟨enabled, newColor, oldColor, newAlpha, oldAlpha, colorOp, alphaOp⟩)
    fun m => (m.enabled, m.srcColor, m.dstColor, m.srcAlpha, m.dstAlpha, m.colorOp, m.alphaOp)

def renderState : Codec RenderState :=
  (text.seq <| choice.seq <| choice.seq <| (flag "depth write").seq <| blendMode.seq <|
    choice.seq word).imap
    (fun (name, cull, depthTest, depthWrite, blend, polygonMode, lineWidth) =>
      ⟨name, cull, depthTest, depthWrite, blend, polygonMode, lineWidth⟩)
    fun s => (s.name, s.cull, s.depthTest, s.depthWrite, s.blend, s.polygonMode, s.lineWidth)

def codeFragment : Codec CodeFragment :=
  (text.seq text).imap (fun (name, source) => ⟨name, source⟩) fun f => (f.name, f.source)

def link : Codec (Option Link) :=
  word.optional.imap (fun target => target.map fun h => ⟨"", some h⟩) fun l => l.bind Link.target

/-- The reference of a stage, which is never left out. -/
def fragmentLink : Codec Link :=
  word.optional.imap (fun target => ⟨"", target⟩) Link.target

def stage : Codec Stage :=
  (choice.seq <| fragmentLink.seq word.list).imap
    (fun (kind, fragment, bytecode) => ⟨kind, fragment, bytecode⟩)
    fun s => (s.kind, s.fragment, s.bytecode)

def pass : Codec Pass :=
  (text.seq <| link.seq <| link.seq <| link.seq <| link.seq stage.list).imap
    (fun (name, vertexLayout, resources, constantBuffer, renderState, stages) =>
      ⟨name, vertexLayout, resources, constantBuffer, renderState, stages⟩)
    fun p => (p.name, p.vertexLayout, p.resources, p.constantBuffer, p.renderState, p.stages)

/-- An effect: its names, then its arrays, passes last. -/
def effect : Codec Effect :=
  (text.seq <| text.seq <| vertexLayout.list.seq <| resourceBlock.list.seq <|
    resourceBlock.list.seq <| buffer.list.seq <| buffer.list.seq <| buffer.list.seq <|
    renderState.list.seq <| codeFragment.list.seq pass.list).imap
    (fun (name, sourcePath, vertexLayouts, localResources, globalResources, constantBuffers,
        uniformBuffers, storageBuffers, renderStates, codeFragments, passes) =>
      { name, sourcePath, vertexLayouts, localResources, globalResources, constantBuffers,
        uniformBuffers, storageBuffers, renderStates, codeFragments, passes })
    fun e => (e.name, e.sourcePath, e.vertexLayouts, e.localResources, e.globalResources,
      e.constantBuffers, e.uniformBuffers, e.storageBuffers, e.renderStates, e.codeFragments,
      e.passes)

end Kfx.Artifact
