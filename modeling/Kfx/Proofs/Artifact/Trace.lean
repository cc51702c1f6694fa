import Kfx.Proofs.Artifact.Codec

/-!
# What happens while bytes are read

A traced reader tells, also where reading fails in the end, every place that it comes to and every
element of a list that is complete. The rules below say what such a reader may do with its input: it
stays inside, it completes no more elements than it has taken bytes for, and its errors tell where
the fault is.
-/
namespace Kfx

open Codec Decoder

/-- The input is what is left of the bytes at its offset. -/
def Input.StandsIn (i : Input) (bytes : List UInt8) : Prop :=
  i.offset ≤ bytes.length ∧ i.rest = bytes.drop i.offset

theorem Input.standsIn_iff {i : Input} {bytes : List UInt8} :
    i.StandsIn bytes ↔ ∃ before, bytes = before ++ i.rest ∧ i.offset = before.length := by
  constructor
  · rintro ⟨hle, hrest⟩
    refine ⟨bytes.take i.offset, by rw [hrest, List.take_append_drop], ?_⟩
    rw [List.length_take]
    omega
  · rintro ⟨before, rfl, hoffset⟩
    rw [Input.StandsIn, hoffset, List.length_append, List.drop_left]
    exact ⟨by omega, rfl⟩

theorem Input.StandsIn.advance {i j : Input} {bytes taken : List UInt8} (h : i.StandsIn bytes)
    (advances : i.Advances taken j) : j.StandsIn bytes := by
  obtain ⟨before, hbytes, hbefore⟩ := Input.standsIn_iff.mp h
  obtain ⟨hrest, hoffset⟩ := advances
  refine Input.standsIn_iff.mpr ⟨before ++ taken, ?_, ?_⟩
  · rw [hbytes, hrest, List.append_assoc]
  · rw [hoffset, hbefore, List.length_append]

/-- An error tells a place inside the bytes, and what is wrong there: bytes are missing, a tag
stands for nothing, or the bytes behind a length are no text. -/
def FormatError.LocatedIn (bytes : List UInt8) : FormatError → Prop
  | .truncated offset needed => offset ≤ bytes.length ∧ 1 ≤ needed
  | .badTag _ value offset => offset < bytes.length ∧ bytes[offset]? = some value
  | .badText offset => offset ≤ bytes.length ∧
      ∃ before length text after, bytes = before ++ wordBytes length ++ text ++ after ∧
        offset = (before ++ wordBytes length).length ∧ length.toNat = text.length ∧
        ∀ s, utf8 s ≠ text
  | _ => True

inductive ReadEvent
  /-- Bytes were taken, and this is what is left. -/
  | moved (place : Input)
  /-- An element of a list is complete. It lies between two offsets. -/
  | element (start stop : Nat)
  deriving DecidableEq

def ReadEvent.isElement : ReadEvent → Bool
  | moved _ => false
  | element _ _ => true

/-- All that happens up to a result or a failure. -/
structure ReadTrace (α : Type) where
  events : List ReadEvent
  result : Except FormatError (α × Input)

/-- How many elements are complete, those of all lists together. -/
def ReadTrace.elements {α : Type} (t : ReadTrace α) : Nat :=
  t.events.countP ReadEvent.isElement

def Traced (α : Type) := Input → ReadTrace α

namespace Traced

variable {α β : Type}

instance : Monad Traced where
  pure a := fun i => ⟨[], .ok (a, i)⟩
  bind t f := fun i =>
    match (t i).result with
    | .error e => ⟨(t i).events, .error e⟩
    | .ok (a, j) => ⟨(t i).events ++ (f a j).events, (f a j).result⟩

/-- A reading that is not looked into. -/
def step (d : Decoder α) : Traced α := fun i =>
  match d.run i with
  | .error e => ⟨[], .error e⟩
  | .ok (a, j) => ⟨[.moved j], .ok (a, j)⟩

def offset : Traced Nat := fun i => ⟨[], .ok (i.offset, i)⟩

def fail (e : FormatError) : Traced α := fun _ => ⟨[], .error e⟩

/-- The same reading, as that of an element. -/
def element (t : Traced α) : Traced α := fun i =>
  match (t i).result with
  | .error e => ⟨(t i).events, .error e⟩
  | .ok (a, j) => ⟨(t i).events ++ [.element i.offset j.offset], .ok (a, j)⟩

def many (t : Traced α) : Nat → Traced (List α)
  | 0 => return []
  | n + 1 => do
    let a ← t.element
    let rest ← many t n
    return a :: rest

def word : Traced UInt32 := do
  return ofWordBytes (← step (take 4))

def count : Traced Nat := do
  return (← word).toNat

def text : Traced String := do
  let n ← count
  let start ← offset
  let bytes ← step (take n)
  match String.fromUTF8? ⟨bytes.toArray⟩ with
  | some s => return s
  | none => fail (.badText start)

def tagged (what : String) (ofTag? : UInt8 → Option α) : Traced α := do
  let start ← offset
  let b ← step byte.read
  match ofTag? b with
  | some a => return a
  | none => fail (.badTag what b start)

def flag (what : String) : Traced Bool :=
  tagged what fun n => if n = 0 then some false else if n = 1 then some true else none

theorem bind_of_error {t : Traced α} {i : Input} {e : FormatError} (h : (t i).result = .error e)
    (f : α → Traced β) : (t >>= f) i = ⟨(t i).events, .error e⟩ := by
  change (match (t i).result with
    | .error e => ⟨(t i).events, .error e⟩
    | .ok (a, j) => ⟨(t i).events ++ (f a j).events, (f a j).result⟩ : ReadTrace β) = _
  rw [h]

theorem bind_of_ok {t : Traced α} {i j : Input} {a : α} (h : (t i).result = .ok (a, j))
    (f : α → Traced β) :
    (t >>= f) i = ⟨(t i).events ++ (f a j).events, (f a j).result⟩ := by
  change (match (t i).result with
    | .error e => ⟨(t i).events, .error e⟩
    | .ok (a, j) => ⟨(t i).events ++ (f a j).events, (f a j).result⟩ : ReadTrace β) = _
  rw [h]

theorem element_of_error {t : Traced α} {i : Input} {e : FormatError}
    (h : (t i).result = .error e) : t.element i = ⟨(t i).events, .error e⟩ := by
  rw [element, h]

theorem element_of_ok {t : Traced α} {i j : Input} {a : α} (h : (t i).result = .ok (a, j)) :
    t.element i = ⟨(t i).events ++ [.element i.offset j.offset], .ok (a, j)⟩ := by
  rw [element, h]

/-- The traced reader comes to what the decoder comes to. -/
def Follows (t : Traced α) (d : Decoder α) : Prop :=
  ∀ i, (t i).result = d.run i

theorem follows_pure (a : α) : Follows (pure a) (pure a) := fun _ => rfl

theorem follows_offset : Follows offset Codec.offset := fun _ => rfl

theorem follows_fail (e : FormatError) : Follows (fail e : Traced α) (Codec.fail e) := fun _ => rfl

theorem follows_step (d : Decoder α) : Follows (step d) d := by
  intro i
  rw [step]
  cases d.run i <;> rfl

theorem Follows.bind {t : Traced α} {d : Decoder α} {f : α → Traced β} {g : α → Decoder β}
    (ht : Follows t d) (hf : ∀ a, Follows (f a) (g a)) : Follows (t >>= f) (d >>= g) := by
  intro i
  cases hresult : d.run i with
  | error e =>
    rw [bind_of_error ((ht i).trans hresult), run_bind_of_error hresult]
  | ok r =>
    rw [bind_of_ok (a := r.1) (j := r.2) ((ht i).trans hresult),
      run_bind_of_ok (a := r.1) (j := r.2) hresult]
    exact hf r.1 r.2

theorem follows_ite {p : Prop} [Decidable p] {t u : Traced α} {d d' : Decoder α}
    (ht : Follows t d) (hu : Follows u d') :
    Follows (if p then t else u) (if p then d else d') := by
  by_cases h : p
  · rwa [if_pos h, if_pos h]
  · rwa [if_neg h, if_neg h]

theorem Follows.element {t : Traced α} {d : Decoder α} (h : Follows t d) :
    Follows t.element d := by
  intro i
  rw [← h i]
  cases hresult : (t i).result with
  | error e => rw [element_of_error hresult]
  | ok r => rw [element_of_ok (a := r.1) (j := r.2) hresult]

theorem Follows.many {t : Traced α} {c : Codec α} (h : Follows t c.read) (n : Nat) :
    Follows (many t n) (c.readMany n) := by
  induction n with
  | zero => exact follows_pure []
  | succ n ih => exact h.element.bind fun a => ih.bind fun rest => follows_pure (a :: rest)

theorem follows_word : Follows word Codec.word.read :=
  (follows_step _).bind fun _ => follows_pure _

theorem follows_count : Follows count Codec.count.read :=
  follows_word.bind fun _ => follows_pure _

theorem follows_text : Follows text Codec.text.read := by
  rw [text_read]
  refine follows_count.bind fun n => follows_offset.bind fun start =>
    (follows_step _).bind fun bytes => ?_
  cases String.fromUTF8? ⟨bytes.toArray⟩ with
  | some s => exact follows_pure s
  | none => exact follows_fail _

theorem follows_tagged (what : String) (tag : α → UInt8) (ofTag? : UInt8 → Option α) :
    Follows (tagged what ofTag?) (Codec.tagged what tag ofTag?).read := by
  refine follows_offset.bind fun start => (follows_step _).bind fun b => ?_
  cases ofTag? b with
  | some a => exact follows_pure a
  | none => exact follows_fail _

end Traced

/-- What a reading from `i` may do with the bytes `i` stands in. Of the bytes it takes, `own` are
not needed to pay for elements. -/
structure ReadTrace.Bounded {α : Type} (t : ReadTrace α) (bytes : List UInt8) (i : Input)
    (own : Nat) : Prop where
  moved : ∀ {j}, .moved j ∈ t.events → j.StandsIn bytes
  element : ∀ {start stop}, .element start stop ∈ t.events → start < stop ∧ stop ≤ bytes.length
  ok : ∀ {a j}, t.result = .ok (a, j) →
    j.StandsIn bytes ∧ i.offset + t.elements + own ≤ j.offset
  error : ∀ {e}, t.result = .error e → i.offset + t.elements ≤ bytes.length ∧ e.LocatedIn bytes

namespace Traced

variable {α β : Type} {bytes : List UInt8} {i : Input}

/-- The reader keeps to the bounds on every input. -/
def Thrifty (t : Traced α) (own : Nat) : Prop :=
  ∀ bytes i, i.StandsIn bytes → (t i).Bounded bytes i own

theorem bounded_pure (a : α) (stands : i.StandsIn bytes) :
    ((pure a : Traced α) i).Bounded bytes i 0 where
  moved h := by cases h
  element h := by cases h
  ok h := by
    cases h
    exact ⟨stands, Nat.le_refl _⟩
  error h := by cases h

theorem bounded_offset (stands : i.StandsIn bytes) : (offset i).Bounded bytes i 0 :=
  bounded_pure i.offset stands

theorem bounded_fail {e : FormatError} (located : e.LocatedIn bytes) (stands : i.StandsIn bytes)
    (own : Nat) : ((fail e : Traced α) i).Bounded bytes i own where
  moved h := by cases h
  element h := by cases h
  ok h := by cases h
  error h := by
    cases h
    exact ⟨stands.1, located⟩

/-- A reading that is not looked into keeps to the bounds if the decoder does. -/
theorem bounded_step {d : Decoder α} {n : Nat} (stands : i.StandsIn bytes)
    (ok : ∀ {a j}, d.run i = .ok (a, j) → ∃ taken, i.Advances taken j ∧ n ≤ taken.length)
    (error : ∀ {e}, d.run i = .error e → e.LocatedIn bytes) :
    (step d i).Bounded bytes i n := by
  cases hrun : d.run i with
  | error e =>
    rw [step, hrun]
    exact bounded_fail (error hrun) stands n
  | ok r =>
    obtain ⟨a, j⟩ := r
    obtain ⟨taken, htaken, hn⟩ := ok hrun
    have stands' : j.StandsIn bytes := stands.advance htaken
    rw [step, hrun]
    refine ⟨?_, ?_, ?_, ?_⟩
    · intro k hk
      cases List.mem_singleton.mp hk
      exact stands'
    · intro start stop hmem
      cases List.mem_singleton.mp hmem
    · intro b k hok
      cases hok
      have helements : ReadTrace.elements (α := α) ⟨[.moved j], .ok (a, j)⟩ = 0 := rfl
      rw [helements, htaken.2]
      exact ⟨stands', by omega⟩
    · intro e herror
      cases herror

theorem thrifty_take (n : Nat) : (step (take n)).Thrifty n := by
  intro bytes i stands
  refine bounded_step stands ?_ ?_
  · intro taken j hrun
    obtain ⟨hlength, hadvances⟩ := advances_of_run_take hrun
    exact ⟨taken, hadvances, by omega⟩
  · intro e hrun
    by_cases h : n ≤ i.rest.length
    · rw [run_take_of_le h] at hrun
      cases hrun
    · rw [run_take_of_lt (by omega)] at hrun
      cases hrun
      exact ⟨stands.1, by omega⟩

theorem thrifty_byte : (step byte.read).Thrifty 1 := by
  intro bytes i stands
  refine bounded_step stands ?_ ?_
  · intro b j hrun
    exact ⟨[b], advances_of_run_byte hrun, by simp⟩
  · intro e hrun
    obtain ⟨offset, rest⟩ := i
    cases rest with
    | cons b rest => cases hrun
    | nil =>
      cases hrun
      exact ⟨stands.1, by omega⟩

theorem Thrifty.weaken {t : Traced α} {own less : Nat} (h : t.Thrifty own) (hle : less ≤ own) :
    t.Thrifty less := by
  intro bytes i stands
  have bounded := h bytes i stands
  refine ⟨bounded.moved, bounded.element, ?_, bounded.error⟩
  intro a j hok
  obtain ⟨hstands, hpaid⟩ := bounded.ok hok
  exact ⟨hstands, by omega⟩

/-- Reading on from wherever the first reader came to. -/
theorem bounded_bind (own more : Nat) {t : Traced α} {f : α → Traced β}
    (first : (t i).Bounded bytes i own)
    (second : ∀ a j, (t i).result = .ok (a, j) → (f a j).Bounded bytes j more) :
    ((t >>= f) i).Bounded bytes i (own + more) := by
  cases hresult : (t i).result with
  | error e =>
    rw [bind_of_error hresult]
    refine ⟨first.moved, first.element, ?_, ?_⟩
    · intro a j hok
      cases hok
    · intro e' herror
      cases herror
      exact first.error hresult
  | ok r =>
    obtain ⟨a, j⟩ := r
    have next := second a j hresult
    obtain ⟨_, hpaid⟩ := first.ok hresult
    rw [bind_of_ok hresult]
    have helements : ReadTrace.elements ⟨(t i).events ++ (f a j).events, (f a j).result⟩ =
        (t i).elements + (f a j).elements := List.countP_append
    refine ⟨?_, ?_, ?_, ?_⟩
    · intro k hk
      rcases List.mem_append.mp hk with hk | hk
      · exact first.moved hk
      · exact next.moved hk
    · intro start stop hmem
      rcases List.mem_append.mp hmem with hmem | hmem
      · exact first.element hmem
      · exact next.element hmem
    · intro b k hok
      obtain ⟨hstands, hpaid'⟩ := next.ok hok
      rw [helements]
      exact ⟨hstands, by omega⟩
    · intro e herror
      obtain ⟨hpaid', hlocated⟩ := next.error herror
      rw [helements]
      exact ⟨by omega, hlocated⟩

theorem Thrifty.bind {t : Traced α} {f : α → Traced β} {own more : Nat} (ht : t.Thrifty own)
    (hf : ∀ a, (f a).Thrifty more) : (t >>= f).Thrifty (own + more) := by
  intro bytes i stands
  refine bounded_bind own more (ht bytes i stands) fun a j hok => ?_
  exact hf a bytes j ((ht bytes i stands).ok hok).1

theorem thrifty_pure (a : α) : (pure a : Traced α).Thrifty 0 :=
  fun _ _ => bounded_pure a

theorem thrifty_fail {e : FormatError} (located : ∀ bytes, e.LocatedIn bytes) (own : Nat) :
    (fail e : Traced α).Thrifty own :=
  fun bytes _ stands => bounded_fail (located bytes) stands own

theorem thrifty_ite {p : Prop} [Decidable p] {t u : Traced α} {own : Nat} (ht : t.Thrifty own)
    (hu : u.Thrifty own) : (if p then t else u).Thrifty own := by
  by_cases h : p
  · rwa [if_pos h]
  · rwa [if_neg h]

/-- An element pays for itself with a byte of its own. -/
theorem Thrifty.element {t : Traced α} (h : t.Thrifty 1) : t.element.Thrifty 0 := by
  intro bytes i stands
  have bounded := h bytes i stands
  cases hresult : (t i).result with
  | error e =>
    rw [element_of_error hresult]
    refine ⟨bounded.moved, bounded.element, ?_, ?_⟩
    · intro a j hok
      cases hok
    · intro e' herror
      cases herror
      exact bounded.error hresult
  | ok r =>
    obtain ⟨a, j⟩ := r
    obtain ⟨hstands, hpaid⟩ := bounded.ok hresult
    rw [element_of_ok hresult]
    have helements :
        ReadTrace.elements ⟨(t i).events ++ [.element i.offset j.offset], .ok (a, j)⟩ =
          (t i).elements + 1 := List.countP_append
    refine ⟨?_, ?_, ?_, ?_⟩
    · intro k hk
      rcases List.mem_append.mp hk with hk | hk
      · exact bounded.moved hk
      · cases List.mem_singleton.mp hk
    · intro start stop hmem
      rcases List.mem_append.mp hmem with hmem | hmem
      · exact bounded.element hmem
      · cases List.mem_singleton.mp hmem
        exact ⟨by omega, hstands.1⟩
    · intro b k hok
      cases hok
      rw [helements]
      exact ⟨hstands, by omega⟩
    · intro e herror
      cases herror

/-- However many elements are asked for, those that are read are paid for. -/
theorem Thrifty.many {t : Traced α} (h : t.Thrifty 1) (n : Nat) : (many t n).Thrifty 0 := by
  induction n with
  | zero => exact thrifty_pure []
  | succ n ih => exact h.element.bind fun a => ih.bind fun rest => thrifty_pure (a :: rest)

theorem thrifty_word : word.Thrifty 4 :=
  (thrifty_take 4).bind fun bytes => thrifty_pure (ofWordBytes bytes)

theorem thrifty_count : count.Thrifty 4 :=
  thrifty_word.bind fun w => thrifty_pure w.toNat

/-- The place of a text that is none is right behind its length. -/
theorem thrifty_text : text.Thrifty 1 := by
  intro bytes i stands
  have hcount : count.Thrifty 1 := thrifty_count.weaken (by omega)
  refine bounded_bind 1 0 (hcount bytes i stands) ?_
  intro n j hn
  obtain ⟨w, k, hword, hpure⟩ := run_bind_eq_ok ((follows_count i).symm.trans hn)
  cases hpure
  obtain ⟨written, hwritten, hlength⟩ := law_word.canonical hword
  cases hwritten
  have stands' : j.StandsIn bytes := stands.advance hlength
  refine bounded_bind 0 0 (bounded_offset stands') ?_
  intro start k hstart
  cases hstart
  have htake : (step (take w.toNat)).Thrifty 0 := (thrifty_take w.toNat).weaken (Nat.zero_le _)
  refine bounded_bind 0 0 (htake bytes j stands') ?_
  intro taken k hk
  obtain ⟨hcounted, htaken⟩ := advances_of_run_take ((follows_step _ j).symm.trans hk)
  have stands'' : k.StandsIn bytes := stands'.advance htaken
  cases hs : String.fromUTF8? ⟨taken.toArray⟩ with
  | some s => exact bounded_pure s stands''
  | none =>
    obtain ⟨before, hbytes, hbefore⟩ := Input.standsIn_iff.mp stands
    have located : (FormatError.badText j.offset).LocatedIn bytes := by
      refine ⟨stands'.1, before, w, taken, k.rest, ?_, ?_, hcounted.symm, ?_⟩
      · rw [hbytes, hlength.1, htaken.1, List.append_assoc, List.append_assoc]
      · rw [hlength.2, hbefore, List.length_append]
      · rintro s rfl
        rw [fromUTF8?_utf8] at hs
        cases hs
    exact bounded_fail located stands'' 0

theorem thrifty_tagged (what : String) (ofTag? : UInt8 → Option α) :
    (tagged what ofTag?).Thrifty 1 := by
  intro bytes i stands
  refine bounded_bind 0 1 (bounded_offset stands) ?_
  intro start j hstart
  cases hstart
  refine bounded_bind 1 0 (thrifty_byte bytes i stands) ?_
  intro b j hb
  have hadvances : i.Advances [b] j := advances_of_run_byte ((follows_step _ i).symm.trans hb)
  have stands' : j.StandsIn bytes := stands.advance hadvances
  cases ofTag? b with
  | some a => exact bounded_pure a stands'
  | none =>
    obtain ⟨before, hbytes, hbefore⟩ := Input.standsIn_iff.mp stands
    have located : (FormatError.badTag what b i.offset).LocatedIn bytes := by
      rw [hadvances.1] at hbytes
      rw [hbytes, hbefore]
      exact ⟨by simp, by simp⟩
    exact bounded_fail located stands' 0

end Traced

end Kfx
