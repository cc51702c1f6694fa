import Kfx.Effect.Choice

/-! The stages of a pipeline and sets of them. -/
namespace Kfx

inductive StageKind
  | vertex | geometry | fragment | compute
  deriving DecidableEq

namespace StageKind

def all : List StageKind := [vertex, geometry, fragment, compute]

/-- The symbol that is defined while a stage of this kind is compiled; it also names the kind in
diagnostics. -/
def define : StageKind → String
  | vertex => "VERTEX"
  | geometry => "GEOMETRY"
  | fragment => "FRAGMENT"
  | compute => "COMPUTE"

def passKeyword : StageKind → String
  | vertex => "VertexShader"
  | geometry => "GeometryShader"
  | fragment => "FragmentShader"
  | compute => "ComputeShader"

def ofPassKeyword? (s : String) : Option StageKind :=
  all.find? fun k => k.passKeyword == s

/-- The kind in file names. -/
def shortName : StageKind → String
  | vertex => "vert"
  | geometry => "geom"
  | fragment => "frag"
  | compute => "comp"

instance : Choice StageKind where
  what := "shader stage"
  all := all
  label
    | vertex => "Vertex"
    | geometry => "Geometry"
    | fragment => "Fragment"
    | compute => "Compute"

end StageKind

/-- A set of stages, one bit each. Higher bits belong to no stage. -/
structure StageMask where
  bits : UInt8
  deriving DecidableEq

namespace StageMask

def ofKind : StageKind → StageMask
  | .vertex => ⟨1⟩
  | .geometry => ⟨2⟩
  | .fragment => ⟨4⟩
  | .compute => ⟨8⟩

def empty : StageMask := ⟨0⟩

def full : StageMask := ⟨15⟩

def union (a b : StageMask) : StageMask := ⟨a.bits ||| b.bits⟩

def has (m : StageMask) (k : StageKind) : Bool :=
  m.bits &&& (ofKind k).bits != 0

/-- Only bits that belong to a stage are set. -/
def IsKnown (m : StageMask) : Prop := m.bits &&& 0xf0 = 0

instance (m : StageMask) : Decidable m.IsKnown := inferInstanceAs (Decidable (_ = _))

/-- The set a word of a stage list stands for. -/
def ofKeyword? : String → Option StageMask
  | "Vertex" => some (ofKind .vertex)
  | "Geometry" => some (ofKind .geometry)
  | "Fragment" => some (ofKind .fragment)
  | "Compute" => some (ofKind .compute)
  | "All" => some full
  | _ => none

end StageMask

end Kfx
