import Kfx.Number.Binary

/-!
# Number literals

In a source a number is an optional minus, digits, and optionally a point with more digits. There is
no exponent. A literal is read twice, as the nearest double and, where a count is wanted, as an
integer through that double.
-/
namespace Kfx.Number

/-- The digits as written; `fraction` is `none` without a point. -/
structure Literal where
  negative : Bool
  whole : List Char
  fraction : Option (List Char)
  deriving DecidableEq

def digitsValue (ds : List Char) : Nat :=
  ds.foldl (fun n d => 10 * n + (d.toNat - '0'.toNat)) 0

namespace Literal

def text (l : Literal) : List Char :=
  (if l.negative then ['-'] else []) ++ l.whole ++
    match l.fraction with
    | none => []
    | some ds => '.' :: ds

/-- The literal of a text: a minus is its sign, and a point parts its digits. -/
def ofText (cs : List Char) : Literal :=
  let digits := if cs.head? = some '-' then cs.tail else cs
  ⟨cs.head? = some '-', digits.takeWhile (· != '.'), (digits.dropWhile (· != '.')).tail?⟩

def value (l : Literal) : Double :=
  let places := l.fraction.getD []
  Double.ofRatio l.negative (digitsValue (l.whole ++ places)) (tenTo places.length)

/-- The literal as a sixty-four bit integer: only without a point, and out of range it is the
nearest bound. -/
def toInteger? (l : Literal) : Option Int :=
  match l.fraction with
  | some _ => none
  | none => l.value.toInt?.map fun n => max (-0x8000000000000000) (min n 0x7fffffffffffffff)

def toCount? (l : Literal) : Option UInt32 :=
  l.toInteger?.bind fun n => if 0 ≤ n ∧ n < UInt32.size then some (UInt32.ofNat n.toNat) else none

end Literal

end Kfx.Number
