import Kfx.Effect.Basic
import Kfx.Text.Quoted

/-!
# The first difference between two effects

Effects are compared in the order their parts are listed here: names before arrays, the length of an
array before its elements. Where a stage's code is stored does not matter, only what it is called.
-/
namespace Kfx

class Shown (α : Type) where
  shown : α → String

namespace Shown

instance : Shown String := ⟨Text.quoteString⟩

instance : Shown Bool := ⟨fun b => if b then "true" else "false"⟩

instance : Shown Nat := ⟨toString⟩

instance : Shown UInt32 := ⟨fun w => toString w.toNat⟩

instance {α : Type} [Shown α] : Shown (Option α) where
  shown
    | none => "None"
    | some a => "Some(" ++ shown a ++ ")"

instance {α : Type} [Shown α] : Shown (List α) where
  shown items := "[" ++ ", ".intercalate (items.map shown) ++ "]"

instance (priority := low) {α : Type} [Choice α] : Shown α := ⟨Choice.label⟩

instance : Shown DataType where
  shown t := "ShaderDataType \x7b kind: " ++ shown t.kind ++ ", array_len: " ++
    shown t.count ++ " \x7d"

/-- The stages of a set and, last, the bits that belong to no stage. -/
instance : Shown StageMask where
  shown m :=
    let stages := (StageKind.all.filter m.has).map StageKind.define
    let others := m.bits &&& 0xf0
    let others := if others = 0 then [] else
      ["0x" ++ String.ofList (Nat.toDigits 16 others.toNat)]
    let parts := if m.bits = 0 then ["0x0"] else stages ++ others
    "StageMask(" ++ " | ".intercalate parts ++ ")"

end Shown

/-- A buffer index, told apart from plain numbers. -/
structure BufferIndex where
  handle : Handle
  deriving DecidableEq

instance : Shown BufferIndex := ⟨fun i => "#" ++ toString i.handle.toNat⟩

/-- A place where two effects differ, and what they have there. -/
structure Difference where
  path : String
  left : String
  right : String
  deriving DecidableEq

def Difference.message (d : Difference) : String :=
  s!"{d.path}: {d.left} != {d.right}"

namespace Difference

variable {α : Type}

def ofValues [DecidableEq α] [Shown α] (path : String) (a b : α) : Option Difference :=
  if a = b then none else some ⟨path, Shown.shown a, Shown.shown b⟩

/-- Elements pairwise, numbered from `i`. -/
def ofElements (path : String) (diff : String → α → α → Option Difference) :
    Nat → List α → List α → Option Difference
  | i, a :: as, b :: bs =>
    (diff s!"{path}[{i}]" a b).orElse fun _ => ofElements path diff (i + 1) as bs
  | _, _, _ => none

/-- Two arrays: their lengths, then their elements. -/
def ofArrays (path : String) (diff : String → α → α → Option Difference) (as bs : List α) :
    Option Difference :=
  (ofValues (path ++ ".len()") as.length bs.length).orElse fun _ => ofElements path diff 0 as bs

def first (ds : List (Unit → Option Difference)) : Option Difference :=
  ds.findSome? fun d => d ()

def ofAttributes (p : String) (a b : VertexAttribute) : Option Difference :=
  first [
    fun _ => ofValues (p ++ ".format") a.format b.format,
    fun _ => ofValues (p ++ ".binding") a.binding b.binding,
    fun _ => ofValues (p ++ ".location") a.location b.location,
    fun _ => ofValues (p ++ ".offset") a.offset b.offset]

def ofVertexBindings (p : String) (a b : VertexBinding) : Option Difference :=
  first [
    fun _ => ofValues (p ++ ".binding") a.binding b.binding,
    fun _ => ofValues (p ++ ".stride") a.stride b.stride,
    fun _ => ofValues (p ++ ".rate") a.rate b.rate]

def ofVertexLayouts (p : String) (a b : VertexLayout) : Option Difference :=
  first [
    fun _ => ofValues (p ++ ".name") a.name b.name,
    fun _ => ofArrays (p ++ ".attributes") ofAttributes a.attributes b.attributes,
    fun _ => ofArrays (p ++ ".bindings") ofVertexBindings a.bindings b.bindings]

def ofBindings (p : String) (a b : ResourceBinding) : Option Difference :=
  first [
    fun _ => ofValues (p ++ ".name") a.name b.name,
    fun _ => ofValues (p ++ ".kind") a.kind b.kind,
    fun _ => ofValues (p ++ ".stages") a.stages b.stages,
    fun _ => ofValues (p ++ ".binding") a.binding b.binding,
    fun _ => ofValues (p ++ ".set") a.set b.set,
    fun _ => ofValues (p ++ ".size") a.size b.size,
    fun _ => ofValues (p ++ ".buffer") (a.buffer.map BufferIndex.mk) (b.buffer.map BufferIndex.mk)]

def ofBlocks (p : String) (a b : ResourceBlock) : Option Difference :=
  first [
    fun _ => ofValues (p ++ ".name") a.name b.name,
    fun _ => ofArrays (p ++ ".bindings") ofBindings a.bindings b.bindings]

def ofFields (p : String) (a b : BufferField) : Option Difference :=
  first [
    fun _ => ofValues (p ++ ".ty") a.type b.type,
    fun _ => ofValues (p ++ ".name") a.name b.name,
    fun _ => ofValues (p ++ ".stages") a.stages b.stages]

def ofBuffers (p : String) (a b : Buffer) : Option Difference :=
  first [
    fun _ => ofValues (p ++ ".name") a.name b.name,
    fun _ => ofArrays (p ++ ".fields") ofFields a.fields b.fields]

def ofBlendModes (p : String) (a b : BlendMode) : Option Difference :=
  first [
    fun _ => ofValues (p ++ ".enabled") a.enabled b.enabled,
    fun _ => ofValues (p ++ ".src_color") a.srcColor b.srcColor,
    fun _ => ofValues (p ++ ".dst_color") a.dstColor b.dstColor,
    fun _ => ofValues (p ++ ".src_alpha") a.srcAlpha b.srcAlpha,
    fun _ => ofValues (p ++ ".dst_alpha") a.dstAlpha b.dstAlpha,
    fun _ => ofValues (p ++ ".color_op") a.colorOp b.colorOp,
    fun _ => ofValues (p ++ ".alpha_op") a.alphaOp b.alphaOp]

/-- Widths differ when their bits do. -/
def ofRenderStates (p : String) (a b : RenderState) : Option Difference :=
  first [
    fun _ => ofValues (p ++ ".name") a.name b.name,
    fun _ => ofValues (p ++ ".cull") a.cull b.cull,
    fun _ => ofValues (p ++ ".depth_test") a.depthTest b.depthTest,
    fun _ => ofValues (p ++ ".depth_write") a.depthWrite b.depthWrite,
    fun _ => ofBlendModes (p ++ ".blend") a.blend b.blend,
    fun _ => ofValues (p ++ ".polygon_mode") a.polygonMode b.polygonMode,
    fun _ => ofValues (p ++ ".line_width") a.lineWidth b.lineWidth]

def ofFragments (p : String) (a b : CodeFragment) : Option Difference :=
  first [
    fun _ => ofValues (p ++ ".name") a.name b.name,
    fun _ => ofValues (p ++ ".source") a.source b.source]

/-- Two references: their names, then their targets. -/
def ofLinks (p : String) (a b : Option Link) : Option Difference :=
  first [
    fun _ => ofValues p (a.map Link.name) (b.map Link.name),
    fun _ => ofValues (p ++ ".target") (a.bind Link.target) (b.bind Link.target)]

def ofStages (p : String) (a b : Stage) : Option Difference :=
  first [
    fun _ => ofValues (p ++ ".kind") a.kind b.kind,
    fun _ => ofValues (p ++ ".fragment") a.fragment.name b.fragment.name,
    fun _ => ofValues (p ++ ".bytecode") a.bytecode b.bytecode]

def ofPasses (p : String) (a b : Pass) : Option Difference :=
  first [
    fun _ => ofValues (p ++ ".name") a.name b.name,
    fun _ => ofLinks (p ++ ".vertex_layout") a.vertexLayout b.vertexLayout,
    fun _ => ofLinks (p ++ ".resources") a.resources b.resources,
    fun _ => ofLinks (p ++ ".constant_buffer") a.constantBuffer b.constantBuffer,
    fun _ => ofLinks (p ++ ".render_state") a.renderState b.renderState,
    fun _ => ofArrays (p ++ ".stages") ofStages a.stages b.stages]

end Difference

open Difference in
def Effect.difference? (a b : Effect) : Option Difference :=
  first [
    fun _ => ofValues "name" a.name b.name,
    fun _ => ofValues "source_path" a.sourcePath b.sourcePath,
    fun _ => ofArrays "vertex_layouts" ofVertexLayouts a.vertexLayouts b.vertexLayouts,
    fun _ => ofArrays "local_resources" ofBlocks a.localResources b.localResources,
    fun _ => ofArrays "global_resources" ofBlocks a.globalResources b.globalResources,
    fun _ => ofArrays "constant_buffers" ofBuffers a.constantBuffers b.constantBuffers,
    fun _ => ofArrays "uniform_buffers" ofBuffers a.uniformBuffers b.uniformBuffers,
    fun _ => ofArrays "storage_buffers" ofBuffers a.storageBuffers b.storageBuffers,
    fun _ => ofArrays "render_states" ofRenderStates a.renderStates b.renderStates,
    fun _ => ofArrays "code_fragments" ofFragments a.codeFragments b.codeFragments,
    fun _ => ofArrays "passes" ofPasses a.passes b.passes]

end Kfx
