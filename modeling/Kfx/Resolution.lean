import Kfx.Effect.Basic
import Kfx.Log

/-!
# Resolution of references

Resolution: every reference of an effect becomes the index of the first definition with its name,
and every buffer binding gets the size of its buffer. Resolution stops at the first reference it
cannot resolve and leaves behind what it had resolved before.
-/
namespace Kfx

inductive ResolveError
  | unresolved (kind name scope : String)
  | sizeMismatch (buffer : String) (declared computed : UInt32)
  | tooLarge (buffer : String)
  deriving DecidableEq

def ResolveError.message : ResolveError → String
  | unresolved kind name scope => s!"unresolved {kind} `{name}` referenced from `{scope}`"
  | sizeMismatch buffer declared computed =>
    s!"buffer `{buffer}` is bound with size {declared.toNat} but its fields add up to " ++
      toString computed.toNat
  | tooLarge buffer => s!"buffer `{buffer}` is larger than {UInt32.size - 1} bytes"

/-- What a step of resolution leaves behind, whether or not it failed. -/
structure Resolved (α : Type) where
  value : α
  log : Log := []
  error : Option ResolveError := none

namespace Resolved

variable {α β : Type}

/-- The next step on the same value, unless the first one failed. -/
def andThen (x : Resolved α) (f : α → Resolved α) : Resolved α :=
  match x.error with
  | some _ => x
  | none =>
    let y := f x.value
    { y with log := x.log ++ y.log }

def map (x : Resolved α) (f : α → β) : Resolved β :=
  ⟨f x.value, x.log, x.error⟩

/-- Elements in order; after the first failure the rest stay as they are. -/
def sweep (f : α → Resolved α) : List α → Resolved (List α)
  | [] => { value := [] }
  | a :: as =>
    let x := f a
    match x.error with
    | some e => ⟨x.value :: as, x.log, some e⟩
    | none =>
      let rest := sweep f as
      ⟨x.value :: rest.value, x.log ++ rest.log, rest.error⟩

end Resolved

/-- A reference to one of `items`, said in the scope `scope`. -/
def Link.resolve {α : Type} [Named α] (items : List α) (kind scope : String) (l : Link) :
    Resolved Link :=
  match findByName items l.name with
  | some h => { value := { l with target := some h } }
  | none => { value := l, error := some (.unresolved kind l.name scope) }

def resolveOptional {α : Type} [Named α] (items : List α) (kind scope : String) :
    Option Link → Resolved (Option Link)
  | none => { value := none }
  | some l => (l.resolve items kind scope).map some

/-- The resources of a pass. Where no local block is declared the reference is dropped. -/
def resolveResources (blocks : List ResourceBlock) (scope : String) :
    Option Link → Resolved (Option Link)
  | none => { value := none }
  | some l =>
    if blocks.isEmpty then
      { value := none
        log := [⟨.debug, s!"pass `{scope}`: no local resource blocks declared, ignoring " ++
          s!"Resources `{l.name}`"⟩] }
    else (l.resolve blocks "resource block" scope).map some

def Pass.resolve (e : Effect) (p : Pass) : Resolved Pass :=
  let start : Resolved Pass := { value := p }
  start
    |>.andThen (fun p =>
      (resolveOptional e.vertexLayouts "vertex layout" p.name p.vertexLayout).map fun l =>
        { p with vertexLayout := l })
    |>.andThen (fun p =>
      (resolveResources e.localResources p.name p.resources).map fun l =>
        { p with resources := l })
    |>.andThen (fun p =>
      (resolveOptional e.constantBuffers "constant buffer" p.name p.constantBuffer).map fun l =>
        { p with constantBuffer := l })
    |>.andThen (fun p =>
      (resolveOptional e.renderStates "render state" p.name p.renderState).map fun l =>
        { p with renderState := l })
    |>.andThen (fun p =>
      (Resolved.sweep (fun s =>
        (s.fragment.resolve e.codeFragments "GLSL fragment" p.name).map fun l =>
          { s with fragment := l }) p.stages).map fun stages =>
        { p with stages })

/-- A binding of the buffer sort `kind`: its buffer is found and the two sizes are compared. -/
def ResourceBinding.bindBuffer (buffers : List Buffer) (kind scope : String)
    (b : ResourceBinding) : Resolved ResourceBinding :=
  match indexOf? buffers b.name with
  | none => { value := b, error := some (.unresolved kind b.name scope) }
  | some i =>
    let handle : Handle := UInt32.ofNat i
    match buffers[i].size with
    | none => { value := b, error := some (.tooLarge buffers[i].name) }
    | some computed =>
      match b.size with
      | none => { value := { b with size := some computed, buffer := some handle } }
      | some declared =>
        if declared = computed then { value := { b with buffer := some handle } }
        else { value := b, error := some (.sizeMismatch buffers[i].name declared computed) }

/-- A binding in the block `scope`. A sampler binds no buffer. -/
def ResourceBinding.resolve (e : Effect) (scope : String) (b : ResourceBinding) :
    Resolved ResourceBinding :=
  match b.kind with
  | .uniformBuffer => b.bindBuffer e.uniformBuffers "uniform buffer" scope
  | .storageBuffer => b.bindBuffer e.storageBuffers "storage buffer" scope
  | .sampler => { value := { b with buffer := none } }

def ResourceBlock.resolve (e : Effect) (block : ResourceBlock) : Resolved ResourceBlock :=
  (Resolved.sweep (fun b => b.resolve e block.name) block.bindings).map fun bindings =>
    { block with bindings }

/-- The whole effect: its passes, then the bindings of local and of global blocks. -/
def Effect.resolve (e : Effect) : Resolved Effect :=
  let start : Resolved Effect := { value := e }
  start
    |>.andThen (fun e => (Resolved.sweep (Pass.resolve e) e.passes).map fun passes =>
      { e with passes })
    |>.andThen (fun e =>
      (Resolved.sweep (ResourceBlock.resolve e) e.localResources).map fun localResources =>
        { e with localResources })
    |>.andThen (fun e =>
      (Resolved.sweep (ResourceBlock.resolve e) e.globalResources).map fun globalResources =>
        { e with globalResources })
    |>.andThen (fun e =>
      { value := e
        log := [⟨.debug, s!"effect `{e.name}`: {e.passes.length} passes, " ++
          s!"{e.localResources.length} local / {e.globalResources.length} global " ++
          "resource blocks validated"⟩] })

end Kfx
