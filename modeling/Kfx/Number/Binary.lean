/-!
# Binary floating point by its bits

A magnitude is the natural number its exponent and mantissa fields spell, so that larger magnitudes
have larger bits and rounding up may carry into the exponent. Everything is exact arithmetic on
natural numbers; signs stand apart.
-/
namespace Kfx.Number

def twoTo (k : Nat) : Nat := Nat.pow 2 k

def tenTo (k : Nat) : Nat := Nat.pow 10 k

/-- The widths of the two fields of a binary format. -/
structure BinaryFormat where
  mantissaBits : Nat
  exponentBits : Nat
  deriving DecidableEq

namespace BinaryFormat

def double : BinaryFormat := ⟨52, 11⟩

def single : BinaryFormat := ⟨23, 8⟩

/-- The first `shift` for which the last mantissa bit of every finite value is a multiple of
`2 ^ (-shift)`: the smallest positive magnitude is `2 ^ (-shift)`. -/
def shift (f : BinaryFormat) : Nat :=
  twoTo (f.exponentBits - 1) - 2 + f.mantissaBits

/-- The bits of infinity, above those of every finite magnitude. -/
def infinity (f : BinaryFormat) : Nat :=
  (twoTo f.exponentBits - 1) * twoTo f.mantissaBits

end BinaryFormat

/-- The nearest natural number to `num / den`, of two equally near ones the even one. -/
def roundDiv (num den : Nat) : Nat :=
  let q := num / den
  let r := 2 * (num % den)
  if r < den then q else if den < r then q + 1 else q + q % 2

/-- The largest `k` with `2 ^ k ≤ num / den`, or zero if the quotient is below one. -/
def floorLog2 (num den : Nat) : Nat :=
  Nat.log2 (num / den)

/-- The bits of the magnitude nearest to `num / den`. The quotient is counted in units of the
smallest positive magnitude; units beyond the mantissa's width go into the exponent. -/
def BinaryFormat.ofRatio (f : BinaryFormat) (num den : Nat) : Nat :=
  let scaled := num * twoTo f.shift
  let spare := floorLog2 scaled den - f.mantissaBits
  let bits := spare * twoTo f.mantissaBits + roundDiv scaled (den * twoTo spare)
  min bits f.infinity

/-- A finite magnitude as the pair of its mantissa and the power of two it counts, in units of the
smallest positive magnitude. -/
def BinaryFormat.parts (f : BinaryFormat) (bits : Nat) : Nat × Nat :=
  let exponent := bits / twoTo f.mantissaBits
  let fraction := bits % twoTo f.mantissaBits
  if exponent = 0 then (fraction, 0) else (fraction + twoTo f.mantissaBits, exponent - 1)

/-- A finite magnitude in units of the smallest positive one. -/
def BinaryFormat.units (f : BinaryFormat) (bits : Nat) : Nat :=
  let (mantissa, power) := f.parts bits
  mantissa * twoTo power

/-- A double: its sign and the bits of its magnitude. -/
structure Double where
  negative : Bool
  magnitude : Nat
  deriving DecidableEq

namespace Double

/-- The double nearest to `num / den` with the given sign. -/
def ofRatio (negative : Bool) (num den : Nat) : Double :=
  ⟨negative, BinaryFormat.double.ofRatio num den⟩

def bits (x : Double) : UInt64 :=
  UInt64.ofNat (x.magnitude + if x.negative then 0x8000000000000000 else 0)

def isInfinite (x : Double) : Bool :=
  decide (BinaryFormat.double.infinity ≤ x.magnitude)

/-- Below zero; a zero is not, whatever its sign. -/
def isNegative (x : Double) : Bool :=
  x.negative && x.magnitude != 0

/-- The value in units of the smallest positive double. -/
def units (x : Double) : Nat :=
  BinaryFormat.double.units x.magnitude

/-- The integer a double stands for, if it stands for one. -/
def toInt? (x : Double) : Option Int :=
  let one := twoTo BinaryFormat.double.shift
  if x.isInfinite || x.units % one != 0 then none
  else some (if x.negative then -((x.units / one : Nat) : Int) else ((x.units / one : Nat) : Int))

def mul (x y : Double) : Double :=
  ofRatio (x.negative != y.negative) (x.units * y.units)
    (twoTo (2 * BinaryFormat.double.shift))

/-- The quotient of two finite magnitudes, rounded; the second is not zero. -/
def div (x y : Double) : Double :=
  ofRatio (x.negative != y.negative) x.units y.units

/-- The single nearest to a double, as thirty-two bits. -/
def toSingle (x : Double) : UInt32 :=
  let single := BinaryFormat.single
  let magnitude :=
    if x.isInfinite then single.infinity
    else single.ofRatio x.units (twoTo BinaryFormat.double.shift)
  UInt32.ofNat (magnitude + if x.negative then 0x80000000 else 0)

end Double

end Kfx.Number
