import Kfx.Artifact.Layout
import Kfx.Artifact.Relink

/-! Artifacts: a mark, a version, and an effect. Nothing may follow. -/
namespace Kfx

namespace Artifact

def magic : List UInt8 := [0x4b, 0x46, 0x58, 0x42]

def version : UInt32 := 1

/-- The mark, the version and the effect, references as stored. -/
def readEffect : Decoder Effect := do
  let found ← Codec.take 4
  unless found = magic do Codec.fail (.badMagic found)
  let v ← Codec.word.read
  unless v = version do Codec.fail (.badVersion v version)
  effect.read

end Artifact

def Effect.serialize (e : Effect) : Except FormatError (List UInt8) := do
  return Artifact.magic ++ Codec.wordBytes Artifact.version ++ (← Artifact.effect.write e)

def Effect.deserialize (bytes : List UInt8) : Except FormatError Effect := do
  let (e, left) ← Artifact.readEffect.run ⟨0, bytes⟩
  unless left.rest = [] do throw (.trailing left.rest.length)
  Artifact.relink e

end Kfx
