import Kfx.Effect.Choice

/-! Fixed-function state of the pipeline, with the words a source has for it. -/
namespace Kfx

inductive CullMode
  | none | front | back | frontAndBack
  deriving DecidableEq

namespace CullMode

def ofKeyword? : String → Option CullMode
  | "Back" => some back
  | "Front" => some front
  | "FrontAndBack" => some frontAndBack
  | "Off" | "None" => some none
  | _ => Option.none

instance : Choice CullMode where
  what := "cull mode"
  all := [none, front, back, frontAndBack]
  label
    | none => "None"
    | front => "Front"
    | back => "Back"
    | frontAndBack => "FrontAndBack"

end CullMode

inductive CompareOp
  | never | less | equal | lessOrEqual | greater | notEqual | greaterOrEqual | always
  deriving DecidableEq

namespace CompareOp

/-- A test that is switched off always passes. -/
def ofKeyword? : String → Option CompareOp
  | "Never" => some never
  | "Less" => some less
  | "Equal" => some equal
  | "LEqual" | "LessEqual" => some lessOrEqual
  | "Greater" => some greater
  | "NotEqual" => some notEqual
  | "GEqual" | "GreaterEqual" => some greaterOrEqual
  | "Always" | "Off" => some always
  | _ => none

instance : Choice CompareOp where
  what := "compare op"
  all := [never, less, equal, lessOrEqual, greater, notEqual, greaterOrEqual, always]
  label
    | never => "Never"
    | less => "Less"
    | equal => "Equal"
    | lessOrEqual => "LessOrEqual"
    | greater => "Greater"
    | notEqual => "NotEqual"
    | greaterOrEqual => "GreaterOrEqual"
    | always => "Always"

end CompareOp

inductive BlendFactor
  | zero | one
  | srcColor | oneMinusSrcColor | dstColor | oneMinusDstColor
  | srcAlpha | oneMinusSrcAlpha | dstAlpha | oneMinusDstAlpha
  | constantColor | oneMinusConstantColor | constantAlpha | oneMinusConstantAlpha
  | srcAlphaSaturate
  deriving DecidableEq

namespace BlendFactor

def all : List BlendFactor :=
  [zero, one, srcColor, oneMinusSrcColor, dstColor, oneMinusDstColor, srcAlpha, oneMinusSrcAlpha,
   dstAlpha, oneMinusDstAlpha, constantColor, oneMinusConstantColor, constantAlpha,
   oneMinusConstantAlpha, srcAlphaSaturate]

def keyword : BlendFactor → String
  | zero => "Zero"
  | one => "One"
  | srcColor => "SrcColor"
  | oneMinusSrcColor => "OneMinusSrcColor"
  | dstColor => "DstColor"
  | oneMinusDstColor => "OneMinusDstColor"
  | srcAlpha => "SrcAlpha"
  | oneMinusSrcAlpha => "OneMinusSrcAlpha"
  | dstAlpha => "DstAlpha"
  | oneMinusDstAlpha => "OneMinusDstAlpha"
  | constantColor => "ConstantColor"
  | oneMinusConstantColor => "OneMinusConstantColor"
  | constantAlpha => "ConstantAlpha"
  | oneMinusConstantAlpha => "OneMinusConstantAlpha"
  | srcAlphaSaturate => "SrcAlphaSaturate"

def ofKeyword? (s : String) : Option BlendFactor :=
  all.find? fun f => f.keyword == s

instance : Choice BlendFactor where
  what := "blend factor"
  all := all
  label := keyword

end BlendFactor

inductive BlendOp
  | add | subtract | reverseSubtract | min | max
  deriving DecidableEq

namespace BlendOp

def ofKeyword? : String → Option BlendOp
  | "Add" => some add
  | "Sub" | "Subtract" => some subtract
  | "RevSub" | "ReverseSubtract" => some reverseSubtract
  | "Min" => some min
  | "Max" => some max
  | _ => none

instance : Choice BlendOp where
  what := "blend op"
  all := [add, subtract, reverseSubtract, min, max]
  label
    | add => "Add"
    | subtract => "Subtract"
    | reverseSubtract => "ReverseSubtract"
    | min => "Min"
    | max => "Max"

end BlendOp

inductive PolygonMode
  | fill | line | point
  deriving DecidableEq

namespace PolygonMode

def ofKeyword? : String → Option PolygonMode
  | "Fill" => some fill
  | "Line" => some line
  | "Point" => some point
  | _ => none

instance : Choice PolygonMode where
  what := "polygon mode"
  all := [fill, line, point]
  label
    | fill => "Fill"
    | line => "Line"
    | point => "Point"

end PolygonMode

def switch? : String → Option Bool
  | "On" => some true
  | "Off" => some false
  | _ => none

/-- How new colours meet old ones. The defaults replace the old colour. -/
structure BlendMode where
  enabled : Bool := false
  srcColor : BlendFactor := .one
  dstColor : BlendFactor := .zero
  srcAlpha : BlendFactor := .one
  dstAlpha : BlendFactor := .zero
  colorOp : BlendOp := .add
  alphaOp : BlendOp := .add
  deriving DecidableEq

/-- A named state. The width is a single-precision number by its bits. -/
structure RenderState where
  name : String
  cull : CullMode := .back
  depthTest : CompareOp := .lessOrEqual
  depthWrite : Bool := true
  blend : BlendMode := {}
  polygonMode : PolygonMode := .fill
  lineWidth : UInt32 := 0x3f800000
  deriving DecidableEq

end Kfx
