/-! Sets of code points given as closed ranges. -/
namespace Kfx.Text

/-- A set of code points as the list of its closed ranges. -/
abbrev Ranges := List (Nat × Nat)

def Ranges.has (rs : Ranges) (c : Char) : Bool :=
  rs.any fun r => r.1 ≤ c.toNat && c.toNat ≤ r.2

end Kfx.Text
