/-! Why bytes are not an artifact, or an effect cannot become one. Offsets count bytes from the
start. -/
namespace Kfx

inductive FormatError
  | badMagic (found : List UInt8)
  | badVersion (found expected : UInt32)
  | truncated (offset needed : Nat)
  | badText (offset : Nat)
  | badTag (what : String) (value : UInt8) (offset : Nat)
  | badIndex (what : String) (index : UInt32) (length : Nat)
  | trailing (count : Nat)
  | overflow (value : Nat)
  deriving DecidableEq

namespace FormatError

def hexByte (b : UInt8) : String :=
  let digits := Nat.toDigits 16 b.toNat
  String.ofList (List.replicate (2 - digits.length) '0' ++ digits)

def message : FormatError → String
  | badMagic found =>
    "not an effect artifact (bad magic [" ++ ", ".intercalate (found.map hexByte) ++ "])"
  | badVersion found expected =>
    s!"unsupported artifact format version {found.toNat} (expected {expected.toNat})"
  | truncated offset needed =>
    s!"artifact truncated at byte {offset}: needed {needed} more bytes"
  | badText offset => s!"invalid UTF-8 string at byte {offset}"
  | badTag what value offset => s!"invalid {what} tag {value.toNat} at byte {offset}"
  | badIndex what index length =>
    s!"{what} index {index.toNat} out of range (len {length})"
  | trailing count => s!"{count} trailing bytes after artifact end"
  | overflow value => s!"length or index {value} does not fit in a u32 field"

end FormatError

end Kfx
