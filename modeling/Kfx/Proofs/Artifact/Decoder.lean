import Kfx.Artifact.Codec

/-!
# More bytes at the end of an input

What more bytes at the end of an input change. A value that was read is read again and the new bytes
are left over; a refusal stays a refusal; and a reader that found too few bytes goes on missing some
until it has got as many as it asked for.
-/
namespace Kfx

def Input.extend (i : Input) (more : List UInt8) : Input :=
  ⟨i.offset, i.rest ++ more⟩

/-- Between the two places lie the bytes `taken`. -/
def Input.Advances (i : Input) (taken : List UInt8) (j : Input) : Prop :=
  i.rest = taken ++ j.rest ∧ j.offset = i.offset + taken.length

theorem Input.advances_refl (i : Input) : i.Advances [] i := by
  simp [Input.Advances]

theorem Input.Advances.eq_of_nil {i j : Input} (h : i.Advances [] j) : i = j := by
  obtain ⟨hrest, hoffset⟩ := h
  cases i
  cases j
  simp_all

theorem Input.Advances.trans {i j k : Input} {s t : List UInt8}
    (hs : i.Advances s j) (ht : j.Advances t k) : i.Advances (s ++ t) k := by
  obtain ⟨hrest, hoffset⟩ := hs
  obtain ⟨hrest', hoffset'⟩ := ht
  refine ⟨by rw [hrest, hrest', List.append_assoc], ?_⟩
  rw [hoffset', hoffset, List.length_append, Nat.add_assoc]

theorem Input.Advances.split {i k : Input} {s t : List UInt8} (h : i.Advances (s ++ t) k) :
    ∃ j, i.Advances s j ∧ j.Advances t k := by
  obtain ⟨hrest, hoffset⟩ := h
  refine ⟨⟨i.offset + s.length, t ++ k.rest⟩, ⟨?_, rfl⟩, ⟨rfl, ?_⟩⟩
  · rw [hrest, List.append_assoc]
  · rw [hoffset, List.length_append, Nat.add_assoc]

theorem Input.Advances.end_eq {i j : Input} {taken : List UInt8} (h : i.Advances taken j) :
    j.offset + j.rest.length = i.offset + i.rest.length := by
  obtain ⟨hrest, hoffset⟩ := h
  rw [hrest, hoffset, List.length_append, Nat.add_assoc]

def FormatError.IsTruncated (e : FormatError) : Prop :=
  ∃ offset needed, e = .truncated offset needed

namespace Decoder

variable {α β : Type}

@[simp] theorem run_offset_eq (i : Input) :
    StateT.run Codec.offset i = .ok (i.offset, i) := rfl

theorem run_bind_of_ok {d : Decoder α} {i j : Input} {a : α} (h : d.run i = .ok (a, j))
    (f : α → Decoder β) : StateT.run (d >>= f) i = (f a).run j := by
  rw [StateT.run_bind, h]
  rfl

theorem run_bind_of_error {d : Decoder α} {i : Input} {e : FormatError}
    (h : d.run i = .error e) (f : α → Decoder β) : StateT.run (d >>= f) i = .error e := by
  rw [StateT.run_bind, h]
  rfl

theorem run_bind_eq_ok {d : Decoder α} {f : α → Decoder β} {i k : Input} {b : β}
    (h : StateT.run (d >>= f) i = .ok (b, k)) :
    ∃ a j, d.run i = .ok (a, j) ∧ (f a).run j = .ok (b, k) := by
  cases hd : d.run i with
  | error e => rw [run_bind_of_error hd] at h; cases h
  | ok p => exact ⟨p.1, p.2, rfl, by rwa [run_bind_of_ok hd] at h⟩

theorem run_bind_eq_error {d : Decoder α} {f : α → Decoder β} {i : Input} {e : FormatError}
    (h : StateT.run (d >>= f) i = .error e) :
    d.run i = .error e ∨ ∃ a j, d.run i = .ok (a, j) ∧ (f a).run j = .error e := by
  cases hd : d.run i with
  | error e' =>
    rw [run_bind_of_error hd] at h
    cases h
    exact Or.inl rfl
  | ok p => exact Or.inr ⟨p.1, p.2, rfl, by rwa [run_bind_of_ok hd] at h⟩

/-- A reader that looks at its input from front to back, and only as far as it must. -/
structure Incremental (d : Decoder α) : Prop where
  advances : ∀ {i a j}, d.run i = .ok (a, j) → ∃ taken, i.Advances taken j
  accepted : ∀ {i a j}, d.run i = .ok (a, j) →
    ∀ more, d.run (i.extend more) = .ok (a, j.extend more)
  refused : ∀ {i e}, d.run i = .error e → ¬ e.IsTruncated →
    ∀ more, d.run (i.extend more) = .error e
  short : ∀ {i offset needed}, d.run i = .error (.truncated offset needed) →
    offset ≤ i.offset + i.rest.length ∧ 0 < needed ∧
      ∀ more : List UInt8, more.length < needed →
        d.run (i.extend more) = .error (.truncated offset (needed - more.length))

theorem incremental_pure (a : α) : Incremental (pure a : Decoder α) where
  advances h := by
    cases h
    exact ⟨[], Input.advances_refl _⟩
  accepted h more := by cases h; rfl
  refused h := by cases h
  short h := by cases h

theorem incremental_offset : Incremental Codec.offset where
  advances h := by
    cases h
    exact ⟨[], Input.advances_refl _⟩
  accepted h more := by cases h; rfl
  refused h := by cases h
  short h := by cases h

theorem incremental_fail {e : FormatError} (h : ¬ e.IsTruncated) :
    Incremental (Codec.fail e : Decoder α) where
  advances h := by cases h
  accepted h := by cases h
  refused h _ more := by cases h; rfl
  short h' := by
    cases h'
    exact absurd ⟨_, _, rfl⟩ h

/-- Reading on after a reading. -/
theorem Incremental.bind {d : Decoder α} {f : α → Decoder β} (hd : Incremental d)
    (hf : ∀ a, Incremental (f a)) : Incremental (d >>= f) where
  advances h := by
    obtain ⟨a, j, hfirst, hsecond⟩ := run_bind_eq_ok h
    obtain ⟨s, hs⟩ := hd.advances hfirst
    obtain ⟨t, ht⟩ := (hf a).advances hsecond
    exact ⟨s ++ t, hs.trans ht⟩
  accepted h more := by
    obtain ⟨a, j, hfirst, hsecond⟩ := run_bind_eq_ok h
    rw [run_bind_of_ok (hd.accepted hfirst more)]
    exact (hf a).accepted hsecond more
  refused h hne more := by
    rcases run_bind_eq_error h with hfirst | ⟨a, j, hfirst, hsecond⟩
    · exact run_bind_of_error (hd.refused hfirst hne more) f
    · rw [run_bind_of_ok (hd.accepted hfirst more)]
      exact (hf a).refused hsecond hne more
  short h := by
    rcases run_bind_eq_error h with hfirst | ⟨a, j, hfirst, hsecond⟩
    · obtain ⟨hoffset, hneeded, hmore⟩ := hd.short hfirst
      exact ⟨hoffset, hneeded, fun more hlt => run_bind_of_error (hmore more hlt) f⟩
    · obtain ⟨taken, htaken⟩ := hd.advances hfirst
      obtain ⟨hoffset, hneeded, hmore⟩ := (hf a).short hsecond
      refine ⟨htaken.end_eq ▸ hoffset, hneeded, fun more hlt => ?_⟩
      rw [run_bind_of_ok (hd.accepted hfirst more)]
      exact hmore more hlt

theorem Incremental.map {d : Decoder α} (hd : Incremental d) (f : α → β) :
    Incremental (f <$> d) := by
  rw [map_eq_pure_bind]
  exact hd.bind fun a => incremental_pure (f a)

theorem run_take_of_le {n : Nat} {i : Input} (h : n ≤ i.rest.length) :
    (Codec.take n).run i = .ok (i.rest.take n, ⟨i.offset + n, i.rest.drop n⟩) := by
  simp [StateT.run, Codec.take, h]

theorem run_take_of_lt {n : Nat} {i : Input} (h : i.rest.length < n) :
    (Codec.take n).run i = .error (.truncated i.offset (n - i.rest.length)) := by
  have hmin : min n i.rest.length = i.rest.length := by omega
  simp [StateT.run, Codec.take, hmin, h]

theorem run_take_of_advances {i j : Input} {bytes : List UInt8} (h : i.Advances bytes j) :
    (Codec.take bytes.length).run i = .ok (bytes, j) := by
  obtain ⟨hrest, hoffset⟩ := h
  have hle : bytes.length ≤ i.rest.length := by simp [hrest]
  rw [run_take_of_le hle, ← hoffset, hrest, List.take_left, List.drop_left]

theorem advances_of_run_take {n : Nat} {i j : Input} {bytes : List UInt8}
    (h : (Codec.take n).run i = .ok (bytes, j)) : bytes.length = n ∧ i.Advances bytes j := by
  by_cases hn : n ≤ i.rest.length
  · rw [run_take_of_le hn] at h
    cases h
    exact ⟨by simp [hn], by simp, by simp [hn]⟩
  · rw [run_take_of_lt (by omega)] at h
    cases h

/-- Taking bytes does not depend on what follows them, and fails just where there are too few. -/
theorem incremental_take (n : Nat) : Incremental (Codec.take n) where
  advances {i a j} h := ⟨a, (advances_of_run_take h).2⟩
  accepted {i a j} h more := by
    by_cases hn : n ≤ i.rest.length
    · rw [run_take_of_le hn] at h
      cases h
      have hle : n ≤ (i.extend more).rest.length := by simp [Input.extend]; omega
      rw [run_take_of_le hle]
      simp [Input.extend, List.take_append_of_le_length hn, List.drop_append_of_le_length hn]
    · rw [run_take_of_lt (by omega)] at h
      cases h
  refused {i e} h hne more := by
    by_cases hn : n ≤ i.rest.length
    · rw [run_take_of_le hn] at h
      cases h
    · rw [run_take_of_lt (by omega)] at h
      cases h
      exact absurd ⟨_, _, rfl⟩ hne
  short {i offset needed} h := by
    by_cases hn : n ≤ i.rest.length
    · rw [run_take_of_le hn] at h
      cases h
    · rw [run_take_of_lt (by omega)] at h
      cases h
      refine ⟨by omega, by omega, fun more hlt => ?_⟩
      have hlt' : (i.extend more).rest.length < n := by simp [Input.extend]; omega
      rw [run_take_of_lt hlt']
      simp [Input.extend, Nat.sub_add_eq]

/-- Reading one byte is taking the first of one. -/
theorem byte_read_eq : Codec.byte.read = (do return (← Codec.take 1).headD 0) := by
  funext i
  obtain ⟨offset, rest⟩ := i
  cases rest <;> rfl

theorem run_byte_of_advances {i j : Input} {b : UInt8} (h : i.Advances [b] j) :
    Codec.byte.read.run i = .ok (b, j) := by
  have htake : (Codec.take 1).run i = .ok ([b], j) := run_take_of_advances h
  rw [byte_read_eq, run_bind_of_ok htake]
  rfl

theorem advances_of_run_byte {i j : Input} {b : UInt8} (h : Codec.byte.read.run i = .ok (b, j)) :
    i.Advances [b] j := by
  rw [byte_read_eq] at h
  obtain ⟨bytes, k, htake, hpure⟩ := run_bind_eq_ok h
  obtain ⟨hlength, hadvances⟩ := advances_of_run_take htake
  cases hpure
  obtain ⟨b, rfl⟩ := List.length_eq_one_iff.mp hlength
  exact hadvances

theorem incremental_byte : Incremental Codec.byte.read := by
  rw [byte_read_eq]
  exact (incremental_take 1).bind fun _ => incremental_pure _

theorem incremental_word : Incremental Codec.word.read :=
  (incremental_take 4).bind fun _ => incremental_pure _

theorem incremental_count : Incremental Codec.count.read :=
  incremental_word.bind fun _ => incremental_pure _

theorem Incremental.readMany {c : Codec α} (hc : Incremental c.read) (n : Nat) :
    Incremental (c.readMany n) := by
  induction n with
  | zero => exact incremental_pure []
  | succ n ih => exact hc.bind fun a => ih.bind fun rest => incremental_pure (a :: rest)

/-- Input cut short of a value that could be read is missing bytes, and no more than were cut. -/
theorem Incremental.cut {d : Decoder α} (hd : Incremental d) {i j : Input} {more : List UInt8}
    {a : α} (whole : d.run (i.extend more) = .ok (a, j)) (left : j.rest.length < more.length) :
    ∃ offset needed, d.run i = .error (.truncated offset needed) ∧
      offset ≤ i.offset + i.rest.length ∧ 0 < needed ∧ needed ≤ more.length := by
  cases h : d.run i with
  | ok p =>
    have hp := hd.accepted (a := p.1) (j := p.2) h more
    rw [whole] at hp
    cases hp
    simp only [Input.extend, List.length_append] at left
    omega
  | error e =>
    by_cases ht : e.IsTruncated
    · obtain ⟨offset, needed, rfl⟩ := ht
      obtain ⟨hoffset, hneeded, hmore⟩ := hd.short h
      refine ⟨offset, needed, rfl, hoffset, hneeded, ?_⟩
      by_cases hlt : more.length < needed
      · rw [hmore more hlt] at whole
        cases whole
      · omega
    · rw [hd.refused h ht more] at whole
      cases whole

end Decoder

end Kfx
