/-!
# Closed sets of alternatives

Their order is part of the artifact format: an alternative is stored as its place in the list.
-/
namespace Kfx

/-- A finite type with its alternatives in order, each under a name. -/
class Choice (α : Type) where
  /-- What the alternatives are alternatives of. -/
  what : String
  all : List α
  label : α → String

namespace Choice

variable {α : Type} [Choice α]

def tag [DecidableEq α] (a : α) : UInt8 :=
  UInt8.ofNat ((all : List α).idxOf a)

def ofTag? (n : UInt8) : Option α :=
  (all : List α)[n.toNat]?

end Choice

end Kfx
