import Kfx.Number.Literal

/-! Signs of literals: what is read as a count is not below zero. -/
namespace Kfx.Number

theorem twoTo_pos (k : Nat) : 0 < twoTo k := Nat.pow_pos (by decide)

theorem BinaryFormat.units_pos (f : BinaryFormat) {bits : Nat} (h : 0 < bits) :
    0 < f.units bits := by
  unfold BinaryFormat.units BinaryFormat.parts
  simp only
  split
  · next hexponent =>
    have hsmall : bits < twoTo f.mantissaBits :=
      (Nat.div_eq_zero_iff_lt (twoTo_pos _)).mp hexponent
    rw [Nat.mod_eq_of_lt hsmall]
    exact Nat.mul_pos h (twoTo_pos 0)
  · exact Nat.mul_pos (Nat.add_pos_right _ (twoTo_pos _)) (twoTo_pos _)

/-- A whole number below zero is at most minus one. -/
theorem Double.toInt?_neg {x : Double} {n : Int} (h : x.toInt? = some n)
    (hneg : x.isNegative = true) : n < 0 := by
  unfold Double.toInt? at h
  simp only [Double.isNegative, Bool.and_eq_true, bne_iff_ne] at hneg
  obtain ⟨hsign, hmagnitude⟩ := hneg
  simp only [hsign, if_true] at h
  split at h
  · cases h
  · next hwhole =>
    have hunits : 0 < x.units := BinaryFormat.units_pos _ (Nat.pos_of_ne_zero hmagnitude)
    simp only [Bool.or_eq_true, bne_iff_ne, not_or, Decidable.not_not] at hwhole
    have hle : twoTo BinaryFormat.double.shift ≤ x.units :=
      Nat.le_of_dvd hunits (Nat.dvd_of_mod_eq_zero hwhole.2)
    have hquotient : 0 < x.units / twoTo BinaryFormat.double.shift :=
      Nat.div_pos hle (twoTo_pos _)
    have hn : n = -((x.units / twoTo BinaryFormat.double.shift : Nat) : Int) :=
      (Option.some.inj h).symm
    omega

theorem Literal.not_isNegative_of_toCount? {l : Literal} {n : UInt32} (h : l.toCount? = some n) :
    l.value.isNegative = false := by
  obtain ⟨i, hi, hcount⟩ := Option.bind_eq_some_iff.mp h
  unfold Literal.toInteger? at hi
  split at hi
  · cases hi
  · obtain ⟨j, hj, rfl⟩ := Option.map_eq_some_iff.mp hi
    by_cases hneg : l.value.isNegative = true
    · have hlt := Double.toInt?_neg hj hneg
      split at hcount
      · next hrange => omega
      · cases hcount
    · simpa using hneg

end Kfx.Number
