import Kfx.Effect.Choice

/-! The types of values a shader can see, and how many bytes they take. -/
namespace Kfx

inductive DataKind
  | float | float2 | float3 | float4 | mat4
  | byte | byte4N | ubyte | ubyte4N
  | uint | uint2 | uint3 | uint4
  | short2 | short2N | short4 | short4N
  | textureId
  deriving DecidableEq

namespace DataKind

def all : List DataKind :=
  [float, float2, float3, float4, mat4, byte, byte4N, ubyte, ubyte4N, uint, uint2, uint3, uint4,
   short2, short2N, short4, short4N, textureId]

def keyword : DataKind → String
  | float => "Float"
  | float2 => "Float2"
  | float3 => "Float3"
  | float4 => "Float4"
  | mat4 => "Mat4"
  | byte => "Byte"
  | byte4N => "Byte4N"
  | ubyte => "UByte"
  | ubyte4N => "UByte4N"
  | uint => "UInt"
  | uint2 => "UInt2"
  | uint3 => "UInt3"
  | uint4 => "UInt4"
  | short2 => "Short2"
  | short2N => "Short2N"
  | short4 => "Short4"
  | short4N => "Short4N"
  | textureId => "TextureID"

/-- The kind a keyword stands for; capitals matter. -/
def ofKeyword? (s : String) : Option DataKind :=
  all.find? fun k => k.keyword == s

/-- The bytes of one element, without padding. -/
def size : DataKind → UInt32
  | float | uint | textureId => 4
  | float2 | uint2 => 8
  | float3 | uint3 => 12
  | float4 | uint4 => 16
  | mat4 => 64
  | byte | ubyte => 1
  | byte4N | ubyte4N => 4
  | short2 | short2N => 4
  | short4 | short4N => 8

instance : Choice DataKind where
  what := "data type"
  all := all
  label
    | textureId => "TextureId"
    | k => k.keyword

end DataKind

/-- A kind and a number of elements: one for a plain value, zero for an array without a size. -/
structure DataType where
  kind : DataKind
  count : UInt32
  deriving DecidableEq

/-- The product of two words, if it is a word. -/
def mulChecked (a b : UInt32) : Option UInt32 :=
  if a.toNat * b.toNat < UInt32.size then some (a * b) else none

/-- The sum of two words, if it is a word. -/
def addChecked (a b : UInt32) : Option UInt32 :=
  if a.toNat + b.toNat < UInt32.size then some (a + b) else none

namespace DataType

/-- The bytes of all elements, if their number is a word. -/
def size (t : DataType) : Option UInt32 :=
  mulChecked t.kind.size t.count

def text (t : DataType) : String :=
  if t.count = 1 then t.kind.keyword
  else if t.count = 0 then t.kind.keyword ++ "[]"
  else t.kind.keyword ++ "[" ++ toString t.count.toNat ++ "]"

end DataType

end Kfx
