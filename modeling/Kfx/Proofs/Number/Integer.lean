import Kfx.Proofs.Number.Literal

/-!
# Integers through doubles

A natural number below `2 ^ 53` is a double itself, and one from `2 ^ k` on is rounded to nothing
below `2 ^ k`. So the double nearest to a literal tells which integer below `2 ^ 32` the literal
denotes, if it denotes one.
-/
namespace Kfx.Number

theorem twoTo_add (a b : Nat) : twoTo (a + b) = twoTo a * twoTo b := Nat.pow_add 2 a b

theorem twoTo_succ (k : Nat) : twoTo (k + 1) = 2 * twoTo k := Nat.pow_succ'

theorem twoTo_le {a b : Nat} (h : a ≤ b) : twoTo a ≤ twoTo b := Nat.pow_le_pow_right (by decide) h

theorem log2_eq {n k : Nat} (hlow : twoTo k ≤ n) (hhigh : n < twoTo (k + 1)) : n.log2 = k := by
  have hn : n ≠ 0 := Nat.ne_of_gt (Nat.lt_of_lt_of_le (twoTo_pos k) hlow)
  exact (Nat.log2_eq_iff hn).mpr ⟨hlow, hhigh⟩

theorem twoTo_log2_le {n : Nat} (hn : n ≠ 0) : twoTo n.log2 ≤ n := Nat.log2_self_le hn

theorem lt_twoTo_log2 (n : Nat) : n < twoTo (n.log2 + 1) := Nat.lt_log2_self

theorem log2_mul_twoTo {n : Nat} (hn : n ≠ 0) (k : Nat) : (n * twoTo k).log2 = n.log2 + k := by
  apply log2_eq
  · rw [twoTo_add]
    exact Nat.mul_le_mul_right _ (twoTo_log2_le hn)
  · rw [Nat.add_right_comm, twoTo_add]
    exact Nat.mul_lt_mul_of_pos_right (lt_twoTo_log2 n) (twoTo_pos k)

section

variable {num den : Nat}

theorem roundDiv_mul (q : Nat) (hden : 0 < den) : roundDiv (q * den) den = q := by
  simp [roundDiv, Nat.mul_div_cancel q hden, hden]

/-- Rounding never goes below the whole part. -/
theorem div_le_roundDiv (num den : Nat) : num / den ≤ roundDiv num den := by
  unfold roundDiv
  dsimp only
  split
  · exact Nat.le_refl _
  · split <;> omega

/-- Up to one half is rounded to zero. -/
theorem roundDiv_eq_zero_iff (hden : 0 < den) : roundDiv num den = 0 ↔ 2 * num ≤ den := by
  by_cases hlt : num < den
  · simp only [roundDiv, Nat.div_eq_of_lt hlt, Nat.mod_eq_of_lt hlt]
    constructor
    · intro h
      split at h
      · omega
      · split at h <;> omega
    · intro h
      split
      · rfl
      · split <;> omega
  · have hone : 1 ≤ num / den := Nat.div_pos (by omega) hden
    have hle := div_le_roundDiv num den
    constructor <;> intro h <;> omega

end

namespace BinaryFormat

variable (f : BinaryFormat)

/-- Bits that hold a mantissa with its leading one, and the power of two it counts. -/
theorem units_normal {k m : Nat} (hlow : twoTo f.mantissaBits ≤ m)
    (hhigh : m < twoTo (f.mantissaBits + 1)) :
    f.units (k * twoTo f.mantissaBits + m) = m * twoTo k := by
  rw [twoTo_succ] at hhigh
  have hpos := twoTo_pos f.mantissaBits
  have hbits : k * twoTo f.mantissaBits + m =
      (m - twoTo f.mantissaBits) + (k + 1) * twoTo f.mantissaBits := by
    rw [Nat.succ_mul]
    omega
  have hfraction : m - twoTo f.mantissaBits < twoTo f.mantissaBits := by omega
  have hexponent : (k * twoTo f.mantissaBits + m) / twoTo f.mantissaBits = k + 1 := by
    rw [hbits, Nat.add_mul_div_right _ _ hpos, Nat.div_eq_of_lt hfraction, Nat.zero_add]
  have hrest : (k * twoTo f.mantissaBits + m) % twoTo f.mantissaBits =
      m - twoTo f.mantissaBits := by
    rw [hbits, Nat.add_mul_mod_self_right, Nat.mod_eq_of_lt hfraction]
  have hmantissa : m - twoTo f.mantissaBits + twoTo f.mantissaBits = m := by omega
  simp [units, parts, hexponent, hrest, hmantissa]

/-- From an exponent on, magnitudes are no smaller than the first one that has it. -/
theorem le_units {k bits : Nat} (h : (k + 1) * twoTo f.mantissaBits ≤ bits) :
    twoTo f.mantissaBits * twoTo k ≤ f.units bits := by
  have hexponent : k + 1 ≤ bits / twoTo f.mantissaBits :=
    (Nat.le_div_iff_mul_le (twoTo_pos _)).mpr h
  have hne : bits / twoTo f.mantissaBits ≠ 0 := by omega
  simp only [units, parts, hne, if_false]
  exact Nat.mul_le_mul (Nat.le_add_left _ _) (twoTo_le (by omega))

end BinaryFormat

/-- The double nearest to a natural number: its leading one is at the place of the number's own. -/
theorem double_ofRatio_one {n : Nat} (hn : n ≠ 0) : BinaryFormat.double.ofRatio n 1 =
    min ((n.log2 + 1022) * twoTo 52 + roundDiv (n * twoTo 1074) (twoTo (n.log2 + 1022)))
      BinaryFormat.double.infinity := by
  have hspare : (n * twoTo 1074).log2 - 52 = n.log2 + 1022 := by
    rw [log2_mul_twoTo hn]
    omega
  have hshift : BinaryFormat.double.shift = 1074 := rfl
  have hwidth : BinaryFormat.double.mantissaBits = 52 := rfl
  simp only [BinaryFormat.ofRatio, floorLog2, hshift, hwidth, Nat.div_one, hspare, Nat.one_mul]

/-- Natural numbers that fit into a mantissa are doubles. -/
theorem double_ofRatio_one_exact {n : Nat} (hn : n < twoTo 53) :
    BinaryFormat.double.ofRatio n 1 < BinaryFormat.double.infinity ∧
      BinaryFormat.double.units (BinaryFormat.double.ofRatio n 1) = n * twoTo 1074 := by
  by_cases hzero : n = 0
  · subst hzero
    have hbits : BinaryFormat.double.ofRatio 0 1 = 0 := by
      simp [BinaryFormat.ofRatio, floorLog2, roundDiv, Nat.mod_eq_of_lt, twoTo_pos]
    have hpos : 0 < BinaryFormat.double.infinity := Nat.mul_pos (by decide) (twoTo_pos _)
    rw [hbits]
    exact ⟨hpos, by simp [BinaryFormat.units, BinaryFormat.parts]⟩
  · have hlog : n.log2 < 53 := (Nat.log2_lt hzero).mpr hn
    -- The mantissa is the number itself, moved so far that it fills its width.
    have hscaled : n * twoTo 1074 = n * twoTo (52 - n.log2) * twoTo (n.log2 + 1022) := by
      rw [Nat.mul_assoc, ← twoTo_add, show 52 - n.log2 + (n.log2 + 1022) = 1074 by omega]
    have hround : roundDiv (n * twoTo 1074) (twoTo (n.log2 + 1022)) = n * twoTo (52 - n.log2) := by
      rw [hscaled, roundDiv_mul _ (twoTo_pos _)]
    have hlow : twoTo 52 ≤ n * twoTo (52 - n.log2) := by
      have hle := Nat.mul_le_mul_right (twoTo (52 - n.log2)) (twoTo_log2_le hzero)
      rwa [← twoTo_add, Nat.add_sub_of_le (by omega)] at hle
    have hhigh : n * twoTo (52 - n.log2) < twoTo (52 + 1) := by
      have hlt := Nat.mul_lt_mul_of_pos_right (lt_twoTo_log2 n) (twoTo_pos (52 - n.log2))
      rwa [← twoTo_add, show n.log2 + 1 + (52 - n.log2) = 52 + 1 by omega] at hlt
    have hfinite : (n.log2 + 1022) * twoTo 52 + n * twoTo (52 - n.log2) <
        BinaryFormat.double.infinity := by
      have hexponent : (n.log2 + 1022) * twoTo 52 ≤ 1074 * twoTo 52 :=
        Nat.mul_le_mul_right _ (by omega)
      have hinfinity : BinaryFormat.double.infinity = 2047 * twoTo 52 := rfl
      rw [twoTo_succ] at hhigh
      omega
    rw [double_ofRatio_one hzero, hround, Nat.min_eq_left (Nat.le_of_lt hfinite)]
    refine ⟨hfinite, ?_⟩
    rw [hscaled]
    exact BinaryFormat.units_normal BinaryFormat.double hlow hhigh

/-- A natural number from a power of two on is not rounded below that power. -/
theorem double_ofRatio_one_large {n k : Nat} (hn : twoTo k ≤ n) :
    BinaryFormat.double.infinity ≤ BinaryFormat.double.ofRatio n 1 ∨
      twoTo k * twoTo 1074 ≤ BinaryFormat.double.units (BinaryFormat.double.ofRatio n 1) := by
  have hzero : n ≠ 0 := Nat.ne_of_gt (Nat.lt_of_lt_of_le (twoTo_pos k) hn)
  have hlog : k ≤ n.log2 := (Nat.le_log2 hzero).mpr hn
  have hmantissa : twoTo 52 ≤ roundDiv (n * twoTo 1074) (twoTo (n.log2 + 1022)) := by
    refine Nat.le_trans ?_ (div_le_roundDiv _ _)
    rw [Nat.le_div_iff_mul_le (twoTo_pos _), ← twoTo_add]
    have hle := Nat.mul_le_mul_right (twoTo 1074) (twoTo_log2_le hzero)
    rwa [← twoTo_add, show n.log2 + 1074 = 52 + (n.log2 + 1022) by omega] at hle
  rw [double_ofRatio_one hzero]
  rcases Nat.le_total BinaryFormat.double.infinity ((n.log2 + 1022) * twoTo 52 +
    roundDiv (n * twoTo 1074) (twoTo (n.log2 + 1022))) with hinfinite | hfinite
  · rw [Nat.min_eq_right hinfinite]
    exact .inl (Nat.le_refl _)
  · rw [Nat.min_eq_left hfinite]
    refine .inr ?_
    calc twoTo k * twoTo 1074 ≤ twoTo n.log2 * twoTo 1074 := Nat.mul_le_mul_right _ (twoTo_le hlog)
      _ = twoTo 52 * twoTo (n.log2 + 1022) := by
        rw [← twoTo_add, ← twoTo_add, show n.log2 + 1074 = 52 + (n.log2 + 1022) by omega]
      _ ≤ _ := BinaryFormat.le_units BinaryFormat.double (by
        rw [Nat.succ_mul]
        exact Nat.add_le_add_left hmantissa _)

namespace Double

/-- Natural numbers below `2 ^ 53` are told exactly. -/
theorem toInt?_ofRatio_one {n : Nat} (hn : n < twoTo 53) (negative : Bool) :
    (ofRatio negative n 1).toInt? = some (if negative then -(n : Int) else n) := by
  obtain ⟨hfinite, hunits⟩ := double_ofRatio_one_exact hn
  have hshift : BinaryFormat.double.shift = 1074 := rfl
  have hpos := twoTo_pos 1074
  simp [toInt?, isInfinite, units, ofRatio, hshift, hunits, Nat.not_le_of_lt hfinite, hpos]

/-- Those from a power of two on are told as infinite or as no nearer to zero than that power. -/
theorem le_natAbs_of_toInt?_ofRatio_one {n k : Nat} (hn : twoTo k ≤ n) {negative : Bool} {i : Int}
    (h : (ofRatio negative n 1).toInt? = some i) : twoTo k ≤ i.natAbs := by
  have hshift : BinaryFormat.double.shift = 1074 := rfl
  unfold toInt? at h
  simp only [isInfinite, units, ofRatio, hshift] at h
  split at h
  · cases h
  · next hwhole =>
    simp only [Bool.or_eq_true, not_or] at hwhole
    have hle := (double_ofRatio_one_large hn).resolve_left (mt decide_eq_true hwhole.1)
    have hquotient := (Nat.le_div_iff_mul_le (twoTo_pos 1074)).mpr hle
    have hi := Option.some.inj h
    split at hi <;> omega

/-- A quotient is below zero as a double unless it is so near to zero that it is rounded to it. -/
theorem isNegative_ofRatio {num den : Nat} (hden : 0 < den) (negative : Bool) :
    (ofRatio negative num den).isNegative = true ↔
      negative = true ∧ den < 2 * (num * twoTo 1074) := by
  have hbits : BinaryFormat.double.ofRatio num den = 0 ↔ 2 * (num * twoTo 1074) ≤ den := by
    have hinfinity : BinaryFormat.double.infinity ≠ 0 := Nat.ne_of_gt
      (Nat.mul_pos (by decide) (twoTo_pos _))
    have hshift : BinaryFormat.double.shift = 1074 := rfl
    have hwidth : BinaryFormat.double.mantissaBits = 52 := rfl
    simp only [BinaryFormat.ofRatio, floorLog2, hshift, hwidth]
    by_cases hspare : (num * twoTo 1074 / den).log2 - 52 = 0
    · rw [hspare, Nat.zero_mul, Nat.zero_add, show den * twoTo 0 = den from Nat.mul_one den,
        ← roundDiv_eq_zero_iff hden]
      omega
    · -- With units to spare the quotient is far above one.
      have hlarge : 1 ≤ num * twoTo 1074 / den := by
        rcases Nat.eq_zero_or_pos (num * twoTo 1074 / den) with hnone | hsome
        · rw [hnone, Nat.log2_zero] at hspare
          exact absurd rfl hspare
        · exact hsome
      have hle : den ≤ num * twoTo 1074 := by
        have hmul := (Nat.le_div_iff_mul_le hden).mp hlarge
        omega
      have hexponent := Nat.mul_pos (Nat.pos_of_ne_zero hspare) (twoTo_pos 52)
      constructor <;> intro h <;> omega
  simp only [isNegative, ofRatio, Bool.and_eq_true, bne_iff_ne, ne_eq, hbits, Nat.not_le]

end Double

namespace Literal

/-- The literal denotes an integer: it has no point. -/
def Denotes (l : Literal) (i : Int) : Prop :=
  l.fraction = none ∧
    i = if l.negative then -(Nat.ofDigitChars 10 l.whole 0 : Int) else Nat.ofDigitChars 10 l.whole 0

/-- The literal denotes a number below zero, and one further from zero than half the smallest
positive double. -/
def BelowZero (l : Literal) : Prop :=
  l.negative = true ∧ tenTo (l.fraction.getD []).length <
    2 * (Nat.ofDigitChars 10 (l.whole ++ l.fraction.getD []) 0 * twoTo 1074)

theorem value_of_no_fraction {l : Literal} (h : l.fraction = none) :
    l.value = Double.ofRatio l.negative (Nat.ofDigitChars 10 l.whole 0) 1 := by
  obtain ⟨negative, whole, fraction⟩ := l
  cases h
  simp [value, digitsValue, Nat.ofDigitChars, tenTo]

/-- A literal is read as a count exactly when it denotes one, and as that one. -/
theorem toCount?_eq_some_iff {l : Literal} {n : UInt32} :
    l.toCount? = some n ↔ l.Denotes n.toNat := by
  have hsize : UInt32.size = twoTo 32 := rfl
  have hwords : twoTo 32 = 4294967296 := rfl
  have hrange := n.toNat_lt_size
  unfold toCount? toInteger? Denotes
  cases hfraction : l.fraction with
  | some ds => simp
  | none =>
    rw [value_of_no_fraction hfraction]
    generalize Nat.ofDigitChars 10 l.whole 0 = d
    by_cases hd : d < twoTo 32
    · have hexact : d < twoTo 53 := Nat.lt_of_lt_of_le hd (twoTo_le (by decide))
      rw [Double.toInt?_ofRatio_one hexact]
      simp only [Option.map_some, Option.bind_some, true_and, Option.ite_none_right_eq_some,
        Option.some.injEq, ← UInt32.toNat_inj, UInt32.toNat_ofNat']
      cases l.negative <;> simp <;> omega
    · have hnone : (∀ i, (Double.ofRatio l.negative d 1).toInt? = some i →
          ¬ (0 ≤ max (-0x8000000000000000) (min i 0x7fffffffffffffff) ∧
            max (-0x8000000000000000) (min i 0x7fffffffffffffff) < (UInt32.size : Int))) := by
        intro i hi
        have hle := Double.le_natAbs_of_toInt?_ofRatio_one (Nat.le_of_not_lt hd) hi
        omega
      constructor
      · intro h
        obtain ⟨j, hj, hcount⟩ := Option.bind_eq_some_iff.mp h
        obtain ⟨i, hi, rfl⟩ := Option.map_eq_some_iff.mp hj
        rw [if_neg (hnone i hi)] at hcount
        cases hcount
      · rintro ⟨_, hn⟩
        split at hn <;> omega

theorem toCount?_eq_none_iff {l : Literal} :
    l.toCount? = none ↔ ∀ n : UInt32, ¬ l.Denotes n.toNat := by
  simp only [← toCount?_eq_some_iff]
  cases l.toCount? <;> simp

theorem isNegative_value {l : Literal} : l.value.isNegative = true ↔ l.BelowZero :=
  Double.isNegative_ofRatio (Nat.pow_pos (by decide)) l.negative

/-- A literal that denotes an integer below zero is below zero as a double too. -/
theorem Denotes.belowZero {l : Literal} {i : Int} (h : l.Denotes i) (hi : i < 0) : l.BelowZero := by
  obtain ⟨hfraction, hvalue⟩ := h
  have hpos := twoTo_pos 1074
  cases hnegative : l.negative with
  | false =>
    rw [hnegative] at hvalue
    simp at hvalue
    omega
  | true =>
    rw [hnegative, if_pos rfl] at hvalue
    have hdigits : 1 ≤ Nat.ofDigitChars 10 l.whole 0 := by omega
    refine ⟨hnegative, ?_⟩
    rw [hfraction, Option.getD_none, List.append_nil]
    have hunits := Nat.mul_le_mul hdigits hpos
    have hone : tenTo ([] : List Char).length = 1 := rfl
    omega

end Literal

end Kfx.Number
