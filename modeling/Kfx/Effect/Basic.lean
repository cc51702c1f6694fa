import Kfx.Effect.DataType
import Kfx.Effect.Stage
import Kfx.Effect.RenderState

/-!
# Effects

Named definitions in arrays, one array for each sort, and passes that refer to the definitions. A
reference is a name until it is resolved and an index from then on.
-/
namespace Kfx

/-- An index into one of the arrays of an effect. -/
abbrev Handle := UInt32

def Handle.get? {α : Type} (h : Handle) (items : List α) : Option α :=
  items[h.toNat]?

/-- A reference by name, with its target once it is known. -/
structure Link where
  name : String
  target : Option Handle := none
  deriving DecidableEq

class Named (α : Type) where
  name : α → String

/-- Where the first definition of that name stands. -/
def indexOf? {α : Type} [Named α] (items : List α) (name : String) : Option (Fin items.length) :=
  items.findFinIdx? fun a => Named.name a == name

/-- The first definition of that name; its index is cut to a word. -/
def findByName {α : Type} [Named α] (items : List α) (name : String) : Option Handle :=
  (indexOf? items name).map fun i => UInt32.ofNat i.val

structure VertexAttribute where
  format : DataType
  binding : UInt32
  location : UInt32
  offset : UInt32
  deriving DecidableEq

inductive InputRate
  | perVertex | perInstance
  deriving DecidableEq

namespace InputRate

def ofKeyword? : String → Option InputRate
  | "vertex" | "PerVertex" => some perVertex
  | "instance" | "PerInstance" => some perInstance
  | _ => none

instance : Choice InputRate where
  what := "input rate"
  all := [perVertex, perInstance]
  label
    | perVertex => "PerVertex"
    | perInstance => "PerInstance"

end InputRate

structure VertexBinding where
  binding : UInt32
  stride : UInt32
  rate : InputRate
  deriving DecidableEq

structure VertexLayout where
  name : String
  attributes : List VertexAttribute := []
  bindings : List VertexBinding := []
  deriving DecidableEq

inductive ResourceKind
  | uniformBuffer | storageBuffer | sampler
  deriving DecidableEq

namespace ResourceKind

def all : List ResourceKind := [uniformBuffer, storageBuffer, sampler]

def keyword : ResourceKind → String
  | uniformBuffer => "UniformBuffer"
  | storageBuffer => "StorageBuffer"
  | sampler => "Sampler"

def ofKeyword? (s : String) : Option ResourceKind :=
  all.find? fun k => k.keyword == s

instance : Choice ResourceKind where
  what := "resource kind"
  all := all
  label := keyword

end ResourceKind

/-- A binding is also the name of the buffer it binds, if it binds one. -/
structure ResourceBinding where
  name : String
  kind : ResourceKind
  stages : StageMask := .full
  binding : UInt32 := 0
  set : UInt32 := 0
  size : Option UInt32 := none
  buffer : Option Handle := none
  deriving DecidableEq

structure ResourceBlock where
  name : String
  bindings : List ResourceBinding := []
  deriving DecidableEq

structure BufferField where
  type : DataType
  name : String
  stages : Option StageMask := none
  deriving DecidableEq

/-- The layout of a constant, uniform or storage buffer. -/
structure Buffer where
  name : String
  fields : List BufferField := []
  deriving DecidableEq

/-- The bytes of all fields without padding, if their number is a word. -/
def fieldsSize (fields : List BufferField) : Option UInt32 :=
  fields.foldlM (fun total f => f.type.size.bind (addChecked total)) 0

def Buffer.size (b : Buffer) : Option UInt32 :=
  fieldsSize b.fields

/-- A stage of a pass: the code it runs and, once built, its words. -/
structure Stage where
  kind : StageKind
  fragment : Link
  bytecode : List UInt32 := []
  deriving DecidableEq

structure Pass where
  name : String
  vertexLayout : Option Link := none
  resources : Option Link := none
  constantBuffer : Option Link := none
  renderState : Option Link := none
  stages : List Stage := []
  deriving DecidableEq

structure CodeFragment where
  name : String
  source : String
  deriving DecidableEq

structure Effect where
  name : String := ""
  sourcePath : String := ""
  vertexLayouts : List VertexLayout := []
  localResources : List ResourceBlock := []
  globalResources : List ResourceBlock := []
  constantBuffers : List Buffer := []
  uniformBuffers : List Buffer := []
  storageBuffers : List Buffer := []
  renderStates : List RenderState := []
  passes : List Pass := []
  codeFragments : List CodeFragment := []
  deriving DecidableEq

instance : Named VertexLayout := ⟨VertexLayout.name⟩
instance : Named ResourceBlock := ⟨ResourceBlock.name⟩
instance : Named Buffer := ⟨Buffer.name⟩
instance : Named RenderState := ⟨RenderState.name⟩
instance : Named Pass := ⟨Pass.name⟩
instance : Named CodeFragment := ⟨CodeFragment.name⟩

/-- The array that a binding of a given kind refers to; a sampler refers to none. -/
def Effect.buffersFor (e : Effect) : ResourceKind → Option (List Buffer)
  | .uniformBuffer => some e.uniformBuffers
  | .storageBuffer => some e.storageBuffers
  | .sampler => none

end Kfx
