/-!
# Positions in a source text

Lines and columns count from one, and a column is a character.
-/
namespace Kfx

/-- A place in a source text. The numbers have no bound here. Kept in words of thirty-two bits they
are the same for every source shorter than `2 ^ 32 - 1` bytes, since neither is more than one above
the number of bytes before the place. -/
structure Pos where
  line : Nat
  column : Nat
  deriving DecidableEq

namespace Pos

def start : Pos := ⟨1, 1⟩

/-- The place after the byte `b` of a text: the bytes of a character behind its first one are at no
column of their own. -/
def afterByte (p : Pos) (b : UInt8) : Pos :=
  if b = '\n'.toUInt8 then ⟨p.line + 1, 1⟩
  else if b &&& 0xC0 ≠ 0x80 then ⟨p.line, p.column + 1⟩
  else p

/-- The place as diagnostics write it, line and column. -/
def text (p : Pos) : String :=
  s!"{p.line}:{p.column}"

end Pos

end Kfx
