import Mathlib.Algebra.GroupWithZero.Nat
import Kfx.Effect.Basic

/-!
# The exact size of a buffer

The size of a buffer is the exact sum of the sizes of its fields, or nothing if that sum is no word.
Sums grow from field to field, so where one of them is too large the whole one is as well, and the
order of the fields does not matter.
-/
namespace Kfx

def word? (n : Nat) : Option UInt32 :=
  if n < UInt32.size then some (UInt32.ofNat n) else none

theorem word?_eq_some {n : Nat} {w : UInt32} : word? n = some w ↔ w.toNat = n := by
  unfold word?
  constructor
  · intro h
    split at h
    · next hlt =>
      cases h
      exact UInt32.toNat_ofNat_of_lt' hlt
    · cases h
  · rintro rfl
    rw [if_pos w.toNat_lt_size, UInt32.ofNat_toNat]

theorem word?_eq_none {n : Nat} : word? n = none ↔ UInt32.size ≤ n := by
  simp [word?]

theorem map_toNat_word? {n m : Nat} :
    (word? n).map UInt32.toNat = some m ↔ n = m ∧ m < UInt32.size := by
  rw [Option.map_eq_some_iff]
  constructor
  · rintro ⟨w, hw, rfl⟩
    exact ⟨(word?_eq_some.mp hw).symm, w.toNat_lt_size⟩
  · rintro ⟨rfl, hlt⟩
    have hw : (UInt32.ofNat n).toNat = n := UInt32.toNat_ofNat_of_lt' hlt
    exact ⟨_, word?_eq_some.mpr hw, hw⟩

theorem mulChecked_eq (a b : UInt32) : mulChecked a b = word? (a.toNat * b.toNat) := by
  unfold mulChecked word?
  rw [UInt32.ofNat_mul, UInt32.ofNat_toNat, UInt32.ofNat_toNat]

theorem addChecked_eq (a b : UInt32) : addChecked a b = word? (a.toNat + b.toNat) := by
  unfold addChecked word?
  rw [UInt32.ofNat_add, UInt32.ofNat_toNat, UInt32.ofNat_toNat]

def BufferField.exactSize (f : BufferField) : Nat :=
  f.type.kind.size.toNat * f.type.count.toNat

/-- The bytes of all fields of a buffer, however many. -/
def Buffer.exactSize (b : Buffer) : Nat :=
  (b.fields.map BufferField.exactSize).sum

/-- One field more: the total grows by the bytes of the field, or is lost as no word. -/
theorem BufferField.addChecked_size (f : BufferField) (total : UInt32) :
    f.type.size.bind (addChecked total) = word? (total.toNat + f.exactSize) := by
  have hfield : f.type.size = word? f.exactSize := mulChecked_eq _ _
  cases hsize : f.type.size with
  | none =>
    have hlarge : UInt32.size ≤ f.exactSize := word?_eq_none.mp (hfield ▸ hsize)
    exact (word?_eq_none.mpr (by omega)).symm
  | some size =>
    have hexact : size.toNat = f.exactSize := word?_eq_some.mp (hfield ▸ hsize)
    rw [Option.bind_some, addChecked_eq, hexact]

theorem foldlM_addChecked (fields : List BufferField) (total : UInt32) :
    fields.foldlM (fun total f => f.type.size.bind (addChecked total)) total =
      word? (total.toNat + (fields.map BufferField.exactSize).sum) := by
  induction fields generalizing total with
  | nil => exact (word?_eq_some.mpr rfl).symm
  | cons f fields ih =>
    rw [List.foldlM_cons, List.map_cons, List.sum_cons, f.addChecked_size, ← Nat.add_assoc]
    cases hstep : word? (total.toNat + f.exactSize) with
    | none =>
      -- The fold stops here, and the fields behind can only add to the sum.
      have hlarge := word?_eq_none.mp hstep
      exact (word?_eq_none.mpr (by omega)).symm
    | some subtotal =>
      rw [← word?_eq_some.mp hstep]
      exact ih subtotal

theorem fieldsSize_eq (fields : List BufferField) :
    fieldsSize fields = word? (fields.map BufferField.exactSize).sum := by
  have hsum := foldlM_addChecked fields 0
  rw [UInt32.toNat_zero, Nat.zero_add] at hsum
  exact hsum

/-- The size of a buffer is exact or missing. -/
theorem Buffer.size_eq (b : Buffer) : b.size = word? b.exactSize :=
  fieldsSize_eq b.fields

/-- Fields in another order have the same size, and none where they had none. -/
theorem fieldsSize_perm {fields fields' : List BufferField} (h : fields.Perm fields') :
    fieldsSize fields = fieldsSize fields' := by
  have hsum : (fields.map BufferField.exactSize).sum = (fields'.map BufferField.exactSize).sum :=
    (h.map BufferField.exactSize).sum_nat
  rw [fieldsSize_eq, fieldsSize_eq, hsum]

/-- Fields have a size exactly if the sum of their bytes, taken without any bound, is a word, and
the size is then this sum. No product or sum on the way is too large where the whole one is not, so
the order of the fields decides neither the size nor whether there is one. -/
theorem fieldsSize_exact_in_any_order (fields : List BufferField) :
    (∀ n : Nat, (fieldsSize fields).map UInt32.toNat = some n ↔
      (fields.map fun f => f.type.kind.size.toNat * f.type.count.toNat).sum = n ∧
        n < UInt32.size) ∧
    (fieldsSize fields = none ↔
      UInt32.size ≤ (fields.map fun f => f.type.kind.size.toNat * f.type.count.toNat).sum) ∧
    ∀ fields', fields.Perm fields' → fieldsSize fields = fieldsSize fields' := by
  refine ⟨?exact, ?missing, fun _ => fieldsSize_perm⟩
  case exact =>
    intro n
    rw [fieldsSize_eq]
    exact map_toNat_word?
  case missing =>
    rw [fieldsSize_eq]
    exact word?_eq_none

/-- The longest array of four floats each that has a size; at most 15 bytes can be added to it. -/
def longField : BufferField := ⟨⟨.float4, 268435455⟩, "blocks", none⟩

def bytesField (count : UInt32) : BufferField := ⟨⟨.byte, count⟩, "rest", none⟩

/-- With 15 bytes more the size is the largest word. With 16 there is none, whether the sum is too
large at the second of three fields, so that the third is never looked at, or only at the last. -/
theorem longField_exact_in_any_order :
    (fieldsSize [longField, bytesField 15]).map UInt32.toNat = some 4294967295 ∧
    fieldsSize [longField, bytesField 16, bytesField 5] = none ∧
    [longField, bytesField 16, bytesField 5].Perm [bytesField 5, bytesField 16, longField] ∧
    fieldsSize [longField, bytesField 16, bytesField 5] =
      fieldsSize [bytesField 5, bytesField 16, longField] := by
  have hfull := fieldsSize_exact_in_any_order [longField, bytesField 15]
  have hlarge := fieldsSize_exact_in_any_order [longField, bytesField 16, bytesField 5]
  have hreverse : [longField, bytesField 16, bytesField 5].Perm
      [bytesField 5, bytesField 16, longField] :=
    List.reverse_perm [bytesField 5, bytesField 16, longField]
  exact ⟨(hfull.1 _).mpr ⟨rfl, by decide⟩, hlarge.2.1.mpr (by decide), hreverse,
    hlarge.2.2 _ hreverse⟩

end Kfx
