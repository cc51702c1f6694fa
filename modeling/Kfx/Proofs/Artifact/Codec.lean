import Kfx.Proofs.Artifact.Decoder

/-!
# The laws of a codec

`fits` says which values can be written, `known` which written values can be read, and `stored` what
is left of a value on the way. Reading takes back exactly what was written, and whatever is read
would be written with the same bytes. Every way to build a codec from others keeps the laws.
-/
namespace Kfx.Codec

open Kfx.Decoder

variable {α β : Type}

theorem toNat_or_shiftLeft (b : UInt8) (w : UInt32) (h : w.toNat < 16777216) :
    (b.toUInt32 ||| (w <<< 8)).toNat = b.toNat + 256 * w.toNat := by
  have hb : b.toNat < 256 := b.toNat_lt
  have hs : (w <<< 8).toNat = w.toNat <<< 8 := by
    simp [UInt32.toNat_shiftLeft, Nat.shiftLeft_eq]
    omega
  rw [UInt32.toNat_or, UInt8.toNat_toUInt32, hs, Nat.or_comm,
    ← Nat.shiftLeft_add_eq_or_of_lt hb, Nat.shiftLeft_eq]
  omega

theorem toNat_ofWordBytes (a b c d : UInt8) :
    (ofWordBytes [a, b, c, d]).toNat =
      a.toNat + 256 * (b.toNat + 256 * (c.toNat + 256 * d.toNat)) := by
  have hb := b.toNat_lt
  have hc := c.toNat_lt
  have hd := d.toNat_lt
  have h4 : (ofWordBytes [d]).toNat = d.toNat := by simp [ofWordBytes]
  have h3 : (ofWordBytes [c, d]).toNat = c.toNat + 256 * d.toNat := by
    rw [ofWordBytes, toNat_or_shiftLeft _ _ (by omega), h4]
  have h2 : (ofWordBytes [b, c, d]).toNat = b.toNat + 256 * (c.toNat + 256 * d.toNat) := by
    rw [ofWordBytes, toNat_or_shiftLeft _ _ (by omega), h3]
  rw [ofWordBytes, toNat_or_shiftLeft _ _ (by omega), h2]

theorem ofWordBytes_wordBytes (w : UInt32) : ofWordBytes (wordBytes w) = w := by
  have hw : w.toNat < 4294967296 := w.toNat_lt
  apply UInt32.toNat_inj.mp
  rw [wordBytes, toNat_ofWordBytes]
  simp [UInt32.toNat_shiftRight, Nat.shiftRight_eq_div_pow]
  omega

theorem wordBytes_ofWordBytes {bytes : List UInt8} (h : bytes.length = 4) :
    wordBytes (ofWordBytes bytes) = bytes := by
  match bytes, h with
  | [a, b, c, d], _ =>
    have ha : a.toNat < 256 := a.toNat_lt
    have hb : b.toNat < 256 := b.toNat_lt
    have hc : c.toNat < 256 := c.toNat_lt
    have hd : d.toNat < 256 := d.toNat_lt
    have hn := toNat_ofWordBytes a b c d
    generalize ofWordBytes [a, b, c, d] = w at hn
    simp only [wordBytes, List.cons.injEq, and_true, ← UInt8.toNat_inj]
    simp [UInt32.toNat_shiftRight, Nat.shiftRight_eq_div_pow]
    omega

theorem utf8_length (s : String) : (utf8 s).length = s.utf8ByteSize := rfl

theorem fromUTF8?_utf8 (s : String) : String.fromUTF8? ⟨(utf8 s).toArray⟩ = some s := by
  have h : (⟨(utf8 s).toArray⟩ : ByteArray) = s.toUTF8 := by simp [utf8]
  rw [h]
  exact dif_pos s.isValidUTF8

theorem utf8_of_fromUTF8? {bytes : List UInt8} {s : String}
    (h : String.fromUTF8? ⟨bytes.toArray⟩ = some s) : utf8 s = bytes := by
  unfold String.fromUTF8? at h
  split at h
  · cases h
    rfl
  · cases h

theorem word_write (w : UInt32) : word.write w = .ok (wordBytes w) := rfl

theorem word_read : word.read = (do return ofWordBytes (← take 4)) := rfl

theorem count_write_of_lt {n : Nat} (h : n < UInt32.size) :
    count.write n = word.write (UInt32.ofNat n) := if_pos h

theorem count_write_of_le {n : Nat} (h : UInt32.size ≤ n) :
    count.write n = .error (.overflow n) := if_neg (Nat.not_lt.mpr h)

theorem count_read : count.read = (do return (← word.read).toNat) := rfl

theorem imap_write (c : Codec α) (out : α → β) (back : β → α) (b : β) :
    (c.imap out back).write b = c.write (back b) := rfl

theorem imap_read (c : Codec α) (out : α → β) (back : β → α) :
    (c.imap out back).read = (do return out (← c.read)) :=
  map_eq_pure_bind out c.read

theorem append_eq_ok {x y : Except FormatError (List UInt8)} {bytes : List UInt8} :
    (do return (← x) ++ (← y)) = Except.ok bytes ↔
      ∃ s t, x = .ok s ∧ y = .ok t ∧ bytes = s ++ t := by
  cases x with
  | error e => exact ⟨fun h => (by cases h), fun ⟨_, _, h, _, _⟩ => (by cases h)⟩
  | ok s =>
    cases y with
    | error e => exact ⟨fun h => (by cases h), fun ⟨_, _, _, h, _⟩ => (by cases h)⟩
    | ok t =>
      constructor
      · intro h
        cases h
        exact ⟨s, t, rfl, rfl, rfl⟩
      · rintro ⟨s', t', hs, ht, rfl⟩
        cases hs
        cases ht
        rfl

/-- Writing and reading belong together. -/
structure Law (c : Codec α) (fits known : α → Prop) (stored : α → α) : Prop where
  writes : ∀ a, fits a ↔ ∃ bytes, c.write a = .ok bytes
  write_stored : ∀ a, c.write (stored a) = c.write a
  reads : ∀ {a bytes i j}, c.write a = .ok bytes → known a → i.Advances bytes j →
    c.read.run i = .ok (stored a, j)
  refuses : ∀ {a bytes i j}, c.write a = .ok bytes → ¬ known a → i.Advances bytes j →
    ∃ e, c.read.run i = .error e
  canonical : ∀ {i a j}, c.read.run i = .ok (a, j) →
    ∃ bytes, c.write a = .ok bytes ∧ i.Advances bytes j
  incremental : Incremental c.read

/-- A value that was read lost nothing. -/
theorem Law.of_read {c : Codec α} {fits known : α → Prop} {stored : α → α}
    (law : c.Law fits known stored) {i j : Input} {a : α} (h : c.read.run i = .ok (a, j)) :
    known a ∧ stored a = a := by
  obtain ⟨bytes, hwrite, hadvances⟩ := law.canonical h
  by_cases hk : known a
  · have hread := (law.reads hwrite hk hadvances).symm.trans h
    exact ⟨hk, congrArg Prod.fst (Except.ok.inj hread)⟩
  · obtain ⟨e, he⟩ := law.refuses hwrite hk hadvances
    rw [h] at he
    cases he

def Anything (_ : α) : Prop := True

def TextFits (s : String) : Prop :=
  s.utf8ByteSize < UInt32.size

/-- The elements of a list can be counted by a word, and each of them fits. -/
def ListFits (fits : α → Prop) (items : List α) : Prop :=
  items.length < UInt32.size ∧ ∀ a ∈ items, fits a

theorem law_word : word.Law Anything Anything id where
  writes w := ⟨fun _ => ⟨wordBytes w, rfl⟩, fun _ => trivial⟩
  write_stored _ := rfl
  reads {w bytes i j} hwrite _ hadvances := by
    cases hwrite
    have htake : (take 4).run i = .ok (wordBytes w, j) := run_take_of_advances hadvances
    rw [word_read, run_bind_of_ok htake, ofWordBytes_wordBytes]
    rfl
  refuses _ hk := absurd trivial hk
  canonical h := by
    obtain ⟨bytes, k, htake, hpure⟩ := run_bind_eq_ok h
    obtain ⟨hlength, hadvances⟩ := advances_of_run_take htake
    cases hpure
    exact ⟨bytes, by rw [word_write, wordBytes_ofWordBytes hlength], hadvances⟩
  incremental := incremental_word

/-- Numbers that are words can be stored, and every stored one is a word. -/
theorem law_count : count.Law (· < UInt32.size) Anything id where
  writes n := by
    by_cases h : n < UInt32.size
    · exact ⟨fun _ => ⟨_, count_write_of_lt h⟩, fun _ => h⟩
    · refine ⟨fun h' => absurd h' h, ?_⟩
      rintro ⟨bytes, hwrite⟩
      rw [count_write_of_le (Nat.not_lt.mp h)] at hwrite
      cases hwrite
  write_stored _ := rfl
  reads {n bytes i j} hwrite _ hadvances := by
    by_cases h : n < UInt32.size
    · rw [count_write_of_lt h] at hwrite
      rw [count_read, run_bind_of_ok (law_word.reads hwrite trivial hadvances), id,
        UInt32.toNat_ofNat_of_lt' h]
      rfl
    · rw [count_write_of_le (Nat.not_lt.mp h)] at hwrite
      cases hwrite
  refuses _ hk := absurd trivial hk
  canonical h := by
    obtain ⟨w, k, hword, hpure⟩ := run_bind_eq_ok h
    obtain ⟨bytes, hwrite, hadvances⟩ := law_word.canonical hword
    cases hpure
    refine ⟨bytes, ?_, hadvances⟩
    rw [count_write_of_lt w.toNat_lt, UInt32.ofNat_toNat, hwrite]
  incremental := incremental_count

section

variable {c : Codec α} {d : Codec β} {fits known : α → Prop} {stored : α → α}
variable {fits' known' : β → Prop} {stored' : β → β}

/-- Two lawful codecs in a row are lawful: the first reader stops where the second starts. -/
theorem Law.seq (hc : c.Law fits known stored) (hd : d.Law fits' known' stored') :
    (c.seq d).Law (fun p => fits p.1 ∧ fits' p.2) (fun p => known p.1 ∧ known' p.2)
      (fun p => (stored p.1, stored' p.2)) where
  writes p := by
    constructor
    · rintro ⟨h, h'⟩
      obtain ⟨s, hs⟩ := (hc.writes p.1).mp h
      obtain ⟨t, ht⟩ := (hd.writes p.2).mp h'
      exact ⟨s ++ t, append_eq_ok.mpr ⟨s, t, hs, ht, rfl⟩⟩
    · rintro ⟨bytes, hwrite⟩
      obtain ⟨s, t, hs, ht, _⟩ := append_eq_ok.mp hwrite
      exact ⟨(hc.writes p.1).mpr ⟨s, hs⟩, (hd.writes p.2).mpr ⟨t, ht⟩⟩
  write_stored p := by simp only [Codec.seq, hc.write_stored, hd.write_stored]
  reads hwrite hk hadvances := by
    obtain ⟨s, t, hs, ht, rfl⟩ := append_eq_ok.mp hwrite
    obtain ⟨k, hfirst, hsecond⟩ := hadvances.split
    rw [Codec.seq, run_bind_of_ok (hc.reads hs hk.1 hfirst),
      run_bind_of_ok (hd.reads ht hk.2 hsecond)]
    rfl
  refuses {p _ i _} hwrite hk hadvances := by
    obtain ⟨s, t, hs, ht, rfl⟩ := append_eq_ok.mp hwrite
    obtain ⟨k, hfirst, hsecond⟩ := hadvances.split
    by_cases h : known p.1
    · obtain ⟨e, he⟩ := hd.refuses ht (fun h' => hk ⟨h, h'⟩) hsecond
      refine ⟨e, ?_⟩
      rw [Codec.seq, run_bind_of_ok (hc.reads hs h hfirst)]
      exact run_bind_of_error he _
    · obtain ⟨e, he⟩ := hc.refuses hs h hfirst
      exact ⟨e, run_bind_of_error he _⟩
  canonical h := by
    obtain ⟨a, k, hfirst, h⟩ := run_bind_eq_ok h
    obtain ⟨b, l, hsecond, hpure⟩ := run_bind_eq_ok h
    obtain ⟨s, hs, hsa⟩ := hc.canonical hfirst
    obtain ⟨t, ht, hta⟩ := hd.canonical hsecond
    cases hpure
    exact ⟨s ++ t, append_eq_ok.mpr ⟨s, t, hs, ht, rfl⟩, hsa.trans hta⟩
  incremental := hc.incremental.bind fun _ => hd.incremental.bind fun _ => incremental_pure _

/-- A codec stays lawful under another name for its values. -/
theorem Law.imap (hc : c.Law fits known stored) {out : α → β} {back : β → α}
    (back_out : ∀ a, back (out a) = a) (hfits : ∀ b, fits' b ↔ fits (back b))
    (hknown : ∀ b, known' b ↔ known (back b)) (hstored : ∀ b, stored' b = out (stored (back b))) :
    (c.imap out back).Law fits' known' stored' where
  writes b := (hfits b).trans (hc.writes (back b))
  write_stored b := by
    rw [imap_write, imap_write, hstored, back_out, hc.write_stored]
  reads {b _ _ _} hwrite hk hadvances := by
    rw [hstored, imap_read,
      run_bind_of_ok (hc.reads hwrite ((hknown b).mp hk) hadvances)]
    rfl
  refuses {b _ _ _} hwrite hk hadvances := by
    obtain ⟨e, he⟩ := hc.refuses hwrite (fun h => hk ((hknown b).mpr h)) hadvances
    rw [imap_read]
    exact ⟨e, run_bind_of_error he _⟩
  canonical h := by
    rw [imap_read] at h
    obtain ⟨a, k, hread, hpure⟩ := run_bind_eq_ok h
    obtain ⟨bytes, hwrite, hadvances⟩ := hc.canonical hread
    cases hpure
    exact ⟨bytes, by rw [imap_write, back_out, hwrite], hadvances⟩
  incremental := hc.incremental.map out

theorem writeMany_cons (a : α) (items : List α) :
    c.writeMany (a :: items) = (do return (← c.write a) ++ (← c.writeMany items)) := rfl

theorem Law.writeMany (hc : c.Law fits known stored) (items : List α) :
    (∀ a ∈ items, fits a) ↔ ∃ bytes, c.writeMany items = .ok bytes := by
  induction items with
  | nil => exact ⟨fun _ => ⟨[], rfl⟩, fun _ a ha => by cases ha⟩
  | cons a items ih =>
    rw [List.forall_mem_cons, hc.writes a, ih, writeMany_cons]
    constructor
    · rintro ⟨⟨s, hs⟩, ⟨t, ht⟩⟩
      exact ⟨s ++ t, append_eq_ok.mpr ⟨s, t, hs, ht, rfl⟩⟩
    · rintro ⟨bytes, hwrite⟩
      obtain ⟨s, t, hs, ht, _⟩ := append_eq_ok.mp hwrite
      exact ⟨⟨s, hs⟩, ⟨t, ht⟩⟩

theorem Law.writeMany_stored (hc : c.Law fits known stored) (items : List α) :
    c.writeMany (items.map stored) = c.writeMany items := by
  induction items with
  | nil => rfl
  | cons a items ih => rw [List.map_cons, writeMany_cons, writeMany_cons, hc.write_stored, ih]

theorem Law.readMany_reads (hc : c.Law fits known stored) {items : List α} {bytes : List UInt8}
    {i j : Input} (hwrite : c.writeMany items = .ok bytes) (hk : ∀ a ∈ items, known a)
    (hadvances : i.Advances bytes j) :
    (c.readMany items.length).run i = .ok (items.map stored, j) := by
  induction items generalizing bytes i with
  | nil =>
    cases hwrite
    rw [hadvances.eq_of_nil]
    rfl
  | cons a items ih =>
    obtain ⟨s, t, hs, ht, rfl⟩ := append_eq_ok.mp hwrite
    obtain ⟨k, hfirst, hsecond⟩ := hadvances.split
    obtain ⟨ha, hitems⟩ := List.forall_mem_cons.mp hk
    rw [List.length_cons, readMany, run_bind_of_ok (hc.reads hs ha hfirst),
      run_bind_of_ok (ih ht hitems hsecond)]
    rfl

theorem Law.readMany_refuses (hc : c.Law fits known stored) {items : List α} {bytes : List UInt8}
    {i j : Input} (hwrite : c.writeMany items = .ok bytes) (hk : ¬ ∀ a ∈ items, known a)
    (hadvances : i.Advances bytes j) : ∃ e, (c.readMany items.length).run i = .error e := by
  induction items generalizing bytes i with
  | nil => exact absurd (fun a ha => by cases ha) hk
  | cons a items ih =>
    obtain ⟨s, t, hs, ht, rfl⟩ := append_eq_ok.mp hwrite
    obtain ⟨k, hfirst, hsecond⟩ := hadvances.split
    rw [List.length_cons, readMany]
    by_cases ha : known a
    · obtain ⟨e, he⟩ := ih ht (fun h => hk (List.forall_mem_cons.mpr ⟨ha, h⟩)) hsecond
      refine ⟨e, ?_⟩
      rw [run_bind_of_ok (hc.reads hs ha hfirst)]
      exact run_bind_of_error he _
    · obtain ⟨e, he⟩ := hc.refuses hs ha hfirst
      exact ⟨e, run_bind_of_error he _⟩

theorem Law.readMany_canonical (hc : c.Law fits known stored) {n : Nat} {items : List α}
    {i j : Input} (h : (c.readMany n).run i = .ok (items, j)) :
    items.length = n ∧ ∃ bytes, c.writeMany items = .ok bytes ∧ i.Advances bytes j := by
  induction n generalizing items i j with
  | zero =>
    cases h
    exact ⟨rfl, [], rfl, Input.advances_refl _⟩
  | succ n ih =>
    rw [readMany] at h
    obtain ⟨a, k, hfirst, h⟩ := run_bind_eq_ok h
    obtain ⟨others, l, hothers, hpure⟩ := run_bind_eq_ok h
    obtain ⟨s, hs, hsa⟩ := hc.canonical hfirst
    obtain ⟨hlength, t, ht, hta⟩ := ih hothers
    cases hpure
    exact ⟨congrArg (· + 1) hlength, s ++ t, append_eq_ok.mpr ⟨s, t, hs, ht, rfl⟩, hsa.trans hta⟩

theorem list_write (items : List α) :
    c.list.write items = (do return (← count.write items.length) ++ (← c.writeMany items)) := rfl

theorem list_read : c.list.read = (do readMany c (← count.read)) := rfl

/-- A list is lawful if its elements are, as long as their number is a word. -/
theorem Law.list (hc : c.Law fits known stored) :
    c.list.Law (ListFits fits) (fun items => ∀ a ∈ items, known a) (List.map stored) where
  writes items := by
    rw [ListFits, law_count.writes, hc.writeMany, list_write]
    constructor
    · rintro ⟨⟨s, hs⟩, ⟨t, ht⟩⟩
      exact ⟨s ++ t, append_eq_ok.mpr ⟨s, t, hs, ht, rfl⟩⟩
    · rintro ⟨bytes, hwrite⟩
      obtain ⟨s, t, hs, ht, _⟩ := append_eq_ok.mp hwrite
      exact ⟨⟨s, hs⟩, ⟨t, ht⟩⟩
  write_stored items := by
    rw [list_write, list_write, List.length_map, hc.writeMany_stored]
  reads hwrite hk hadvances := by
    obtain ⟨s, t, hs, ht, rfl⟩ := append_eq_ok.mp hwrite
    obtain ⟨k, hfirst, hsecond⟩ := hadvances.split
    rw [list_read, run_bind_of_ok (law_count.reads hs trivial hfirst)]
    exact hc.readMany_reads ht hk hsecond
  refuses hwrite hk hadvances := by
    obtain ⟨s, t, hs, ht, rfl⟩ := append_eq_ok.mp hwrite
    obtain ⟨k, hfirst, hsecond⟩ := hadvances.split
    rw [list_read, run_bind_of_ok (law_count.reads hs trivial hfirst)]
    exact hc.readMany_refuses ht hk hsecond
  canonical h := by
    obtain ⟨n, k, hcount, hmany⟩ := run_bind_eq_ok h
    obtain ⟨s, hs, hsa⟩ := law_count.canonical hcount
    obtain ⟨rfl, t, ht, hta⟩ := hc.readMany_canonical hmany
    exact ⟨s ++ t, append_eq_ok.mpr ⟨s, t, hs, ht, rfl⟩, hsa.trans hta⟩
  incremental := incremental_count.bind hc.incremental.readMany

end

theorem text_write (s : String) :
    text.write s = (do return (← count.write (utf8 s).length) ++ (← Except.ok (utf8 s))) := rfl

theorem text_read : text.read = (do
    let n ← count.read
    let start ← offset
    let bytes ← take n
    match String.fromUTF8? ⟨bytes.toArray⟩ with
    | some s => return s
    | none => fail (.badText start)) := rfl

theorem incremental_text : Incremental text.read := by
  rw [text_read]
  refine incremental_count.bind fun n => incremental_offset.bind fun start =>
    (incremental_take n).bind fun bytes => ?_
  cases String.fromUTF8? ⟨bytes.toArray⟩ with
  | some s => exact incremental_pure s
  | none => exact incremental_fail (by rintro ⟨_, _, h⟩; cases h)

/-- Every text short enough to be counted can be stored, and reads back from its own bytes only. -/
theorem law_text : text.Law TextFits Anything id where
  writes s := by
    rw [TextFits, ← utf8_length, law_count.writes, text_write]
    constructor
    · rintro ⟨t, ht⟩
      exact ⟨t ++ utf8 s, append_eq_ok.mpr ⟨t, utf8 s, ht, rfl, rfl⟩⟩
    · rintro ⟨bytes, hwrite⟩
      obtain ⟨t, _, ht, _, _⟩ := append_eq_ok.mp hwrite
      exact ⟨t, ht⟩
  write_stored _ := rfl
  reads {s _ _ _} hwrite _ hadvances := by
    rw [text_write] at hwrite
    obtain ⟨t, _, ht, hs, rfl⟩ := append_eq_ok.mp hwrite
    cases hs
    obtain ⟨k, hfirst, hsecond⟩ := hadvances.split
    rw [text_read, run_bind_of_ok (law_count.reads ht trivial hfirst),
      run_bind_of_ok (run_offset_eq k), id, run_bind_of_ok (run_take_of_advances hsecond),
      fromUTF8?_utf8]
    rfl
  refuses _ hk := absurd trivial hk
  canonical {i s j} h := by
    rw [text_read] at h
    obtain ⟨n, k, hcount, hrest⟩ := run_bind_eq_ok h
    obtain ⟨start, _, hstart, hrest⟩ := run_bind_eq_ok hrest
    cases hstart
    obtain ⟨bytes, l, htake, hmatch⟩ := run_bind_eq_ok hrest
    obtain ⟨t, ht, hta⟩ := law_count.canonical hcount
    obtain ⟨rfl, hbytes⟩ := advances_of_run_take htake
    cases hs : String.fromUTF8? ⟨bytes.toArray⟩ with
    | none => rw [hs] at hmatch; cases hmatch
    | some s' =>
      rw [hs] at hmatch
      cases hmatch
      rw [← utf8_of_fromUTF8? hs] at ht hbytes
      exact ⟨t ++ utf8 s, append_eq_ok.mpr ⟨t, utf8 s, ht, rfl, rfl⟩, hta.trans hbytes⟩
  incremental := incremental_text

theorem tagged_write (what : String) (tag : α → UInt8) (ofTag? : UInt8 → Option α) (a : α) :
    (tagged what tag ofTag?).write a = .ok [tag a] := rfl

theorem incremental_tagged (what : String) (tag : α → UInt8) (ofTag? : UInt8 → Option α) :
    Incremental (tagged what tag ofTag?).read := by
  refine incremental_offset.bind fun start => incremental_byte.bind fun b => ?_
  cases ofTag? b with
  | some a => exact incremental_pure a
  | none => exact incremental_fail (by rintro ⟨_, _, h⟩; cases h)

/-- A tag stands for the value it was made from, or for nothing. -/
theorem law_tagged (what : String) {tag : α → UInt8} {ofTag? : UInt8 → Option α}
    {known : α → Prop} (ofTag?_tag : ∀ a, known a → ofTag? (tag a) = some a)
    (ofTag?_unknown : ∀ a, ¬ known a → ofTag? (tag a) = none)
    (tag_ofTag? : ∀ n a, ofTag? n = some a → tag a = n) :
    (tagged what tag ofTag?).Law Anything known id where
  writes a := ⟨fun _ => ⟨[tag a], rfl⟩, fun _ => trivial⟩
  write_stored _ := rfl
  reads {a _ i _} hwrite hk hadvances := by
    cases hwrite
    rw [tagged, run_bind_of_ok (run_offset_eq i), run_bind_of_ok (run_byte_of_advances hadvances),
      ofTag?_tag a hk]
    rfl
  refuses {a _ i _} hwrite hk hadvances := by
    cases hwrite
    refine ⟨.badTag what (tag a) i.offset, ?_⟩
    rw [tagged, run_bind_of_ok (run_offset_eq i), run_bind_of_ok (run_byte_of_advances hadvances),
      ofTag?_unknown a hk]
    rfl
  canonical h := by
    obtain ⟨start, _, hstart, hrest⟩ := run_bind_eq_ok h
    cases hstart
    obtain ⟨b, k, hbyte, hmatch⟩ := run_bind_eq_ok hrest
    cases hb : ofTag? b with
    | none => rw [hb] at hmatch; cases hmatch
    | some a =>
      rw [hb] at hmatch
      cases hmatch
      refine ⟨[b], ?_, advances_of_run_byte hbyte⟩
      rw [tagged_write, tag_ofTag? b _ hb]
  incremental := incremental_tagged what tag ofTag?

/-- Every alternative is listed, once, and its place is a byte. -/
class LawfulChoice (α : Type) [Choice α] : Prop where
  nodup : (Choice.all : List α).Nodup
  complete : ∀ a : α, a ∈ (Choice.all : List α)
  small : (Choice.all : List α).length < 256

section

variable [Choice α] [DecidableEq α] [LawfulChoice α]

theorem ofTag?_tag (a : α) : Choice.ofTag? (Choice.tag a) = some a := by
  have hlt : (Choice.all : List α).idxOf a < (Choice.all : List α).length :=
    List.idxOf_lt_length_iff.mpr (LawfulChoice.complete a)
  have hsmall := LawfulChoice.small (α := α)
  rw [Choice.ofTag?, Choice.tag, UInt8.toNat_ofNat_of_lt' (by simp [UInt8.size]; omega),
    List.getElem?_eq_getElem hlt, List.getElem_idxOf hlt]

theorem tag_of_ofTag? {n : UInt8} {a : α} (h : Choice.ofTag? n = some a) : Choice.tag a = n := by
  obtain ⟨hlt, hget⟩ := List.getElem?_eq_some_iff.mp h
  rw [Choice.tag, ← hget, LawfulChoice.nodup.idxOf_getElem n.toNat hlt, UInt8.ofNat_toNat]

theorem law_choice : (choice : Codec α).Law Anything Anything id :=
  law_tagged _ (fun a _ => ofTag?_tag a) (fun _ h => absurd trivial h) fun _ _ => tag_of_ofTag?

end

theorem law_flag (what : String) : (flag what).Law Anything Anything id :=
  law_tagged _ (by intro b _; cases b <;> rfl) (fun _ h => absurd trivial h) (by
    intro n b h
    by_cases h0 : n = 0
    · subst h0
      cases h
      rfl
    · by_cases h1 : n = 1
      · subst h1
        cases h
        rfl
      · simp [h0, h1] at h)

theorem law_mask : mask.Law Anything StageMask.IsKnown id :=
  law_tagged _ (fun _ h => if_pos h) (fun _ h => if_neg h) (by
    intro n m h
    by_cases hk : StageMask.IsKnown ⟨n⟩
    · rw [if_pos hk] at h
      cases h
      rfl
    · rw [if_neg hk] at h
      cases h)

section

variable {c : Codec α} {fits known : α → Prop} {stored : α → α}

theorem optional_write_some (a : α) : c.optional.write (some a) =
    (do return (← (flag "presence flag").write true) ++ (← c.write a)) := rfl

theorem optional_read : c.optional.read = (do
    if ← (flag "presence flag").read then return some (← c.read)
    return none) := rfl

/-- A value that may be left out is lawful if the value is. -/
theorem Law.optional (hc : c.Law fits known stored) :
    c.optional.Law (fun o => ∀ a ∈ o, fits a) (fun o => ∀ a ∈ o, known a) (Option.map stored) where
  writes o := by
    cases o with
    | none => exact ⟨fun _ => ⟨_, rfl⟩, fun _ a ha => by cases ha⟩
    | some a =>
      have hsome : (∀ a' ∈ some a, fits a') ↔ fits a := by simp
      rw [hsome, hc.writes, optional_write_some]
      constructor
      · rintro ⟨t, ht⟩
        exact ⟨[1] ++ t, append_eq_ok.mpr ⟨[1], t, rfl, ht, rfl⟩⟩
      · rintro ⟨bytes, hwrite⟩
        obtain ⟨_, t, _, ht, _⟩ := append_eq_ok.mp hwrite
        exact ⟨t, ht⟩
  write_stored o := by
    cases o with
    | none => rfl
    | some a => rw [Option.map_some, optional_write_some, optional_write_some, hc.write_stored]
  reads {o _ _ _} hwrite hk hadvances := by
    cases o with
    | none =>
      rw [optional_read, run_bind_of_ok ((law_flag _).reads hwrite trivial hadvances)]
      rfl
    | some a =>
      obtain ⟨s, t, hs, ht, rfl⟩ := append_eq_ok.mp hwrite
      obtain ⟨k, hfirst, hsecond⟩ := hadvances.split
      rw [optional_read, run_bind_of_ok ((law_flag _).reads hs trivial hfirst)]
      exact run_bind_of_ok (hc.reads ht (hk a rfl) hsecond) _
  refuses {o _ _ _} hwrite hk hadvances := by
    cases o with
    | none => exact absurd (fun a ha => by cases ha) hk
    | some a =>
      obtain ⟨s, t, hs, ht, rfl⟩ := append_eq_ok.mp hwrite
      obtain ⟨k, hfirst, hsecond⟩ := hadvances.split
      obtain ⟨e, he⟩ := hc.refuses ht (fun h => hk (by simpa using h)) hsecond
      refine ⟨e, ?_⟩
      rw [optional_read, run_bind_of_ok ((law_flag _).reads hs trivial hfirst)]
      exact run_bind_of_error he _
  canonical h := by
    rw [optional_read] at h
    obtain ⟨b, k, hflag, hrest⟩ := run_bind_eq_ok h
    obtain ⟨s, hs, hsa⟩ := (law_flag _).canonical hflag
    cases b with
    | false =>
      cases hrest
      exact ⟨s, hs, hsa⟩
    | true =>
      obtain ⟨a, l, hread, hpure⟩ := run_bind_eq_ok hrest
      obtain ⟨t, ht, hta⟩ := hc.canonical hread
      cases hpure
      exact ⟨s ++ t, append_eq_ok.mpr ⟨s, t, hs, ht, rfl⟩, hsa.trans hta⟩
  incremental := by
    rw [optional_read]
    refine (law_flag _).incremental.bind fun b => ?_
    cases b with
    | false => exact incremental_pure none
    | true => exact hc.incremental.bind fun a => incremental_pure (some a)

end

end Kfx.Codec
