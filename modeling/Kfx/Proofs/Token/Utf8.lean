import Kfx.Proofs.Source.Position

/-!
# The bytes of characters

An ASCII character is one byte. Any other one is a first byte and continuation bytes, all of them
beyond ASCII, and only the first one stands at a column.
-/
namespace Kfx.Utf8

def encode (cs : List Char) : List UInt8 := cs.flatMap String.utf8EncodeChar

@[simp] theorem encode_nil : encode [] = [] := rfl

@[simp] theorem encode_cons (c : Char) (cs : List Char) :
    encode (c :: cs) = String.utf8EncodeChar c ++ encode cs := rfl

@[simp] theorem encode_append (cs ds : List Char) : encode (cs ++ ds) = encode cs ++ encode ds := by
  simp [encode]

theorem toByteArray_ofList (cs : List Char) :
    (String.ofList cs).toByteArray = (encode cs).toByteArray := by
  rw [String.toByteArray_ofList]
  rfl

theorem bytes_of_toList {source : String} {cs : List Char} (h : source.toList = cs) :
    source.toByteArray.data.toList = encode cs := by
  rw [← h, ← String.utf8Encode_toList]
  simp [List.utf8Encode, List.data_toByteArray, encode]

theorem length_encode (cs : List Char) : (encode cs).length = (String.ofList cs).utf8ByteSize := by
  rw [String.utf8ByteSize, toByteArray_ofList, ByteArray.size, List.data_toByteArray]
  simp

theorem isContinuation_iff (b : UInt8) :
    b &&& 0xC0 = 0x80 ↔ 128 ≤ b.toNat ∧ b.toNat < 192 := by
  have hall : ∀ n < 256, UInt8.ofNat n &&& 0xC0 = 0x80 ↔ 128 ≤ n ∧ n < 192 := by
    decide +kernel
  simpa using hall b.toNat b.toNat_lt

/-- What holds of the first 128 characters holds of every ASCII character. -/
theorem of_ascii {P : Char → Prop} (h : ∀ n < 128, P (Char.ofNat n)) {c : Char}
    (hc : c.val ≤ 127) : P c := by
  have hlt : c.toNat < 128 := Nat.lt_succ_of_le (UInt32.le_iff_toNat_le.mp hc)
  simpa using h c.toNat hlt

theorem utf8EncodeChar_of_ascii {c : Char} (h : c.val ≤ 127) :
    String.utf8EncodeChar c = [c.toUInt8] :=
  String.utf8EncodeChar_eq_singleton (Char.utf8Size_eq_one_iff.mpr h)

/-- The bytes of a character that is not ASCII. -/
structure Wide (first : UInt8) (others : List UInt8) : Prop where
  first_beyond : 128 ≤ first
  first_stands : first &&& 0xC0 ≠ 0x80
  others_continue : ∀ b ∈ others, b &&& 0xC0 = 0x80

/-- No byte of a character beyond ASCII is ASCII. -/
theorem wide_utf8EncodeChar {c : Char} (h : ¬c.val ≤ 127) :
    ∃ first others, String.utf8EncodeChar c = first :: others ∧ Wide first others := by
  have hv : ¬c.val.toNat ≤ 127 := fun hle => h (UInt32.le_iff_toNat_le.mpr hle)
  have hcontinues (n : Nat) : UInt8.ofNat (n % 64 + 128) &&& 0xC0 = 0x80 := by
    rw [isContinuation_iff, UInt8.toNat_ofNat']
    omega
  have hwide (n : Nat) (hlow : 192 ≤ n) (hhigh : n < 256) {others : List UInt8}
      (hothers : ∀ b ∈ others, b &&& 0xC0 = 0x80) : Wide (UInt8.ofNat n) others := by
    refine ⟨UInt8.le_iff_toNat_le.mpr ?_, fun hb => ?_, hothers⟩
    · rw [UInt8.toNat_ofNat']
      change 128 ≤ _
      omega
    · rw [isContinuation_iff, UInt8.toNat_ofNat'] at hb
      omega
  have hnone : ∀ b ∈ ([] : List UInt8), b &&& 0xC0 = 0x80 := by simp
  unfold String.utf8EncodeChar
  simp only [hv, if_false]
  split
  · refine ⟨_, _, rfl, hwide _ (by omega) (by omega) ?_⟩
    exact List.forall_mem_cons.mpr ⟨hcontinues _, hnone⟩
  · split
    · refine ⟨_, _, rfl, hwide _ (by omega) (by omega) ?_⟩
      simp only [List.forall_mem_cons, hcontinues, true_and]
      exact hnone
    · refine ⟨_, _, rfl, hwide _ (by omega) (by omega) ?_⟩
      simp only [List.forall_mem_cons, hcontinues, true_and]
      exact hnone

/-- Bytes tell ASCII characters apart. -/
theorem toUInt8_inj {c d : Char} (hc : c.val ≤ 127) (hd : d.val ≤ 127) :
    c.toUInt8 = d.toUInt8 ↔ c = d := by
  refine ⟨fun h => ?_, fun h => h ▸ rfl⟩
  have hc' : c.val.toNat ≤ 127 := UInt32.le_iff_toNat_le.mp hc
  have hd' : d.val.toNat ≤ 127 := UInt32.le_iff_toNat_le.mp hd
  have hnat := congrArg UInt8.toNat h
  simp only [Char.toUInt8, UInt32.toNat_toUInt8] at hnat
  exact Char.ext (UInt32.toNat.inj (by omega))

theorem afterByte_of_ascii {c : Char} (hc : c.val ≤ 127) (p : Pos) :
    p.afterByte c.toUInt8 = p.next c := by
  have hstands : c.toUInt8 &&& 0xC0 ≠ 0x80 :=
    of_ascii (P := fun c => c.toUInt8 &&& 0xC0 ≠ 0x80) (by decide +kernel) hc
  simp [Pos.afterByte, Pos.next, toUInt8_inj hc (by decide : '\n'.val ≤ 127), hstands]

theorem ne_of_wide {c d : Char} (hc : ¬c.val ≤ 127) (hd : d.val ≤ 127) : c ≠ d :=
  fun h => hc (h ▸ hd)

/-- A byte beyond ASCII is no ASCII character. -/
theorem ne_of_beyond {b : UInt8} (hb : 128 ≤ b) {d : Char} (hd : d.val ≤ 127) : b ≠ d.toUInt8 := by
  rintro rfl
  have hb' : 128 ≤ d.toUInt8.toNat := UInt8.le_iff_toNat_le.mp hb
  have hd' : d.val.toNat ≤ 127 := UInt32.le_iff_toNat_le.mp hd
  simp only [Char.toUInt8, UInt32.toNat_toUInt8] at hb'
  omega

theorem Wide.afterByte_first {first : UInt8} {others : List UInt8} (h : Wide first others)
    {c : Char} (hc : ¬c.val ≤ 127) (p : Pos) : p.afterByte first = p.next c := by
  have hfirst : first ≠ '\n'.toUInt8 := ne_of_beyond h.first_beyond (by decide)
  simp [Pos.afterByte, Pos.next, hfirst, h.first_stands, ne_of_wide hc (by decide : '\n'.val ≤ 127)]

/-- Continuation bytes are not at a place of their own. -/
theorem afterByte_of_continuation {b : UInt8} (h : b &&& 0xC0 = 0x80) (p : Pos) :
    p.afterByte b = p := by
  have hb : b ≠ '\n'.toUInt8 := by
    rintro rfl
    exact absurd h (by decide)
  simp [Pos.afterByte, hb, h]

end Kfx.Utf8
