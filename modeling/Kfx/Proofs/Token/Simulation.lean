import Kfx.Token.Lexer
import Kfx.Proofs.Token.Stream
import Kfx.Proofs.Token.Utf8

/-!
# Bytes and characters

The lexer goes through the bytes of a source as a stream goes through its characters. Every byte it
looks for is ASCII, so it takes the bytes of any other character one after the other, and whenever
it stops it stands between two characters.
-/
namespace Kfx.Lexer

open Utf8

variable {source : String} {l l' : Lexer source}

def bytes (l : Lexer source) : List UInt8 := source.toByteArray.data.toList.drop l.offset

theorem ahead?_eq (l : Lexer source) (k : Nat) : l.ahead? k = l.bytes[k]? := by
  unfold ahead? bytes
  rw [List.getElem?_drop]
  split
  · next h =>
    have hlt : l.offset + k < source.toByteArray.data.toList.length := h
    rw [List.getElem?_eq_getElem hlt]
    rfl
  · next h =>
    rw [List.getElem?_eq_none]
    exact Nat.le_of_not_lt h

theorem peek?_eq (l : Lexer source) : l.peek? = l.bytes.head? := by
  rw [peek?, ahead?_eq, List.head?_eq_getElem?]

section

variable {b : UInt8} {bs : List UInt8}

theorem bump_eq (h : l.bytes = b :: bs) : l.bump = ⟨l.offset + 1, l.pos.afterByte b, l.ended⟩ := by
  simp [bump, peek?_eq, h]

theorem bytes_bump (h : l.bytes = b :: bs) : l.bump.bytes = bs := by
  rw [bump_eq h]
  unfold bytes at h ⊢
  rw [← List.drop_drop, h]
  rfl

end

/-- `f` does not stop at bytes beyond ASCII. -/
def Onward {α : Type} (f : Lexer source → α) : Prop :=
  ∀ l b, l.peek? = some b → 128 ≤ b → f l = f l.bump

/-- Continuation bytes are passed without a new place. -/
theorem pass_continuations {α : Type} {f : Lexer source → α} (hf : Onward f)
    {bs more : List UInt8}
    (h : l.bytes = bs ++ more) (hbs : ∀ b ∈ bs, b &&& 0xC0 = 0x80) :
    f l = f { l with offset := l.offset + bs.length } := by
  induction bs generalizing l with
  | nil => rfl
  | cons b bs ih =>
    obtain ⟨hb, hbs⟩ := List.forall_mem_cons.mp hbs
    have hbeyond : 128 ≤ b := UInt8.le_iff_toNat_le.mpr ((isContinuation_iff b).mp hb).1
    rw [hf l b (by simp [peek?_eq, h]) hbeyond, ih (bytes_bump h) hbs, bump_eq h,
      afterByte_of_continuation hb, List.length_cons, Nat.add_assoc, Nat.add_comm 1]

/-- The lexer stands between two characters, and the stream is what is behind it. -/
structure Tracks (l : Lexer source) (s : Stream) : Prop where
  split : ∃ before, source.toList = before ++ s.rest ∧ l.offset = (encode before).length
  pos_eq : l.pos = s.pos
  ended_eq : l.ended = s.ended

theorem tracks_start (source : String) : (start source).Tracks (.ofString source) :=
  ⟨⟨[], rfl, rfl⟩, rfl, rfl⟩

namespace Tracks

variable {s : Stream} {c : Char} {cs r : List Char} {p : Pos} {ended : Bool}

theorem bytes_eq (h : l.Tracks s) : l.bytes = encode s.rest := by
  obtain ⟨before, hsource, hoffset⟩ := h.split
  rw [bytes, bytes_of_toList hsource, hoffset, encode_append, List.drop_left]

theorem peek?_nil (h : l.Tracks ⟨[], p, ended⟩) : l.peek? = none := by
  simp [peek?_eq, h.bytes_eq]

/-- An ASCII character is the next byte. -/
theorem bump_ascii (h : l.Tracks ⟨c :: r, p, ended⟩) (hc : c.val ≤ 127) :
    l.peek? = some c.toUInt8 ∧ l.bump.Tracks ⟨r, p.next c, ended⟩ := by
  have hbytes := h.bytes_eq
  simp only [encode_cons, utf8EncodeChar_of_ascii hc, List.cons_append, List.nil_append] at hbytes
  refine ⟨by simp [peek?_eq, hbytes], ?_⟩
  obtain ⟨before, hsource, hoffset⟩ := h.split
  rw [bump_eq hbytes]
  refine ⟨⟨before ++ [c], by simp [hsource], by simp [hoffset, utf8EncodeChar_of_ascii hc]⟩, ?_,
    h.ended_eq⟩
  rw [← afterByte_of_ascii hc]
  exact congrArg (·.afterByte c.toUInt8) h.pos_eq

/-- A character that is not ASCII is a byte beyond ASCII and more of them. What does not stop at
such bytes goes on behind the character. -/
theorem bump_wide (h : l.Tracks ⟨c :: r, p, ended⟩) (hc : ¬c.val ≤ 127) :
    ∃ b l', l.peek? = some b ∧ 128 ≤ b ∧ l'.Tracks ⟨r, p.next c, ended⟩ ∧
      ∀ {α : Type} {f : Lexer source → α}, Onward f → f l.bump = f l' := by
  obtain ⟨first, others, hencode, hwide⟩ := wide_utf8EncodeChar hc
  have hbytes := h.bytes_eq
  simp only [encode_cons, hencode, List.cons_append] at hbytes
  obtain ⟨before, hsource, hoffset⟩ := h.split
  refine ⟨first, ⟨l.offset + 1 + others.length, p.next c, ended⟩, by simp [peek?_eq, hbytes],
    hwide.first_beyond, ⟨⟨before ++ [c], by simp [hsource], ?_⟩, rfl, rfl⟩, fun hf => ?_⟩
  · simp [hoffset, hencode]
    omega
  · rw [pass_continuations hf (bytes_bump hbytes) hwide.others_continue, bump_eq hbytes,
      hwide.afterByte_first hc, h.pos_eq, h.ended_eq]

/-- The same for any character. -/
theorem onward (h : l.Tracks ⟨c :: r, p, ended⟩) {α : Type} {f : Lexer source → α}
    (hf : ¬c.val ≤ 127 → Onward f) : ∃ l', l'.Tracks ⟨r, p.next c, ended⟩ ∧ f l.bump = f l' := by
  by_cases hc : c.val ≤ 127
  · exact ⟨l.bump, (h.bump_ascii hc).2, rfl⟩
  · obtain ⟨_, l', _, _, hl', hpass⟩ := h.bump_wide hc
    exact ⟨l', hl', hpass (hf hc)⟩

theorem peek?_cons (h : l.Tracks ⟨c :: r, p, ended⟩) : ∃ b, l.peek? = some b := by
  by_cases hc : c.val ≤ 127
  · exact ⟨_, (h.bump_ascii hc).1⟩
  · obtain ⟨b, _, hb, _⟩ := h.bump_wide hc
    exact ⟨b, hb⟩

/-- What the next byte says about the next character. -/
theorem peek?_cases (h : l.Tracks ⟨cs, p, ended⟩) {b : UInt8} (hb : l.peek? = some b) :
    ∃ c r, cs = c :: r ∧ (c.val ≤ 127 ∧ b = c.toUInt8 ∨ ¬c.val ≤ 127 ∧ 128 ≤ b) := by
  cases cs with
  | nil => simp [h.peek?_nil] at hb
  | cons c r =>
    refine ⟨c, r, rfl, ?_⟩
    by_cases hc : c.val ≤ 127
    · exact .inl ⟨hc, Option.some.inj (hb.symm.trans (h.bump_ascii hc).1)⟩
    · obtain ⟨b', _, hb', hbeyond, _⟩ := h.bump_wide hc
      exact .inr ⟨hc, Option.some.inj (hb.symm.trans hb') ▸ hbeyond⟩

theorem byte_eq_iff (h : l.Tracks ⟨c :: r, p, ended⟩) {b : UInt8} (hb : l.peek? = some b) {d : Char}
    (hd : d.val ≤ 127) : b = d.toUInt8 ↔ c = d := by
  obtain ⟨_, _, hcons, ⟨hc, rfl⟩ | ⟨hc, hbeyond⟩⟩ := h.peek?_cases hb
  · cases hcons
    exact toUInt8_inj hc hd
  · cases hcons
    exact iff_of_false (ne_of_beyond hbeyond hd) (ne_of_wide hc hd)

/-- The next byte is a given ASCII character exactly when the next character is. -/
theorem peek?_eq_some (h : l.Tracks ⟨cs, p, ended⟩) {d : Char} (hd : d.val ≤ 127) :
    l.peek? = some d.toUInt8 ↔ ∃ r, cs = d :: r := by
  cases cs with
  | nil => simp [h.peek?_nil]
  | cons c r =>
    obtain ⟨b, hb⟩ := h.peek?_cons
    simp [hb, h.byte_eq_iff hb hd]

end Tracks

/-- A question about bytes and one about characters have the same answer for ASCII, and the answer
`other` for everything else. -/
structure Agrees {α : Type} (onByte : UInt8 → α) (onChar : Char → α) (other : α) : Prop where
  ascii : ∀ c : Char, c.val ≤ 127 → onByte c.toUInt8 = onChar c
  beyond : ∀ b : UInt8, 128 ≤ b → onByte b = other
  wide : ∀ c : Char, ¬c.val ≤ 127 → onChar c = other

theorem Tracks.agree {α : Type} {onByte : UInt8 → α} {onChar : Char → α} {other : α}
    (h : Agrees onByte onChar other) {c : Char} {r : List Char} {p : Pos} {ended : Bool} {b : UInt8}
    (hl : l.Tracks ⟨c :: r, p, ended⟩) (hb : l.peek? = some b) : onByte b = onChar c := by
  obtain ⟨_, _, hcons, ⟨hc, rfl⟩ | ⟨hc, hbeyond⟩⟩ := hl.peek?_cases hb
  · cases hcons
    exact h.ascii c hc
  · cases hcons
    rw [h.beyond b hbeyond, h.wide c hc]

section

variable {c : Char}

theorem of_beyond {P : UInt8 → Prop} (h : ∀ n < 128, P (UInt8.ofNat (n + 128))) {b : UInt8}
    (hb : 128 ≤ b) : P b := by
  have hle : 128 ≤ b.toNat := UInt8.le_iff_toNat_le.mp hb
  have hlt := b.toNat_lt
  have hP := h (b.toNat - 128) (by omega)
  rw [Nat.sub_add_cancel hle] at hP
  simpa using hP

theorem toNat_of_wide (hc : ¬c.val ≤ 127) : 127 < c.toNat :=
  Nat.lt_of_not_le fun hle => hc (UInt32.le_iff_toNat_le.mpr hle)

theorem agrees_ne {d : Char} (hd : d.val ≤ 127) : Agrees (· != d.toUInt8) (· != d) true where
  ascii c hc := by
    rw [Bool.eq_iff_iff]
    simp [toUInt8_inj hc hd]
  beyond b hb := by simpa using ne_of_beyond hb hd
  wide c hc := by simpa using ne_of_wide hc hd

theorem agrees_isBlank : Agrees Bytes.isBlank Trivia.isBlank false where
  ascii c hc := of_ascii (P := fun c => Bytes.isBlank c.toUInt8 = Trivia.isBlank c)
    (by decide +kernel) hc
  beyond b hb := of_beyond (P := fun b => Bytes.isBlank b = false) (by decide +kernel) hb
  wide c hc := by
    have hne {d : Char} (hd : d.val ≤ 127) : c ≠ d := ne_of_wide hc hd
    simp [Trivia.isBlank, hne (d := ' ') (by decide), hne (d := '\t') (by decide),
      hne (d := '\r') (by decide), hne (d := '\n') (by decide)]

theorem agrees_isDigit : Agrees Bytes.isDigit Char.isDigit false where
  ascii c hc := of_ascii (P := fun c => Bytes.isDigit c.toUInt8 = c.isDigit) (by decide +kernel) hc
  beyond b hb := of_beyond (P := fun b => Bytes.isDigit b = false) (by decide +kernel) hb
  wide c hc := by
    have hv := toNat_of_wide hc
    simp [Char.isDigit, UInt32.le_iff_toNat_le]
    omega

theorem agrees_isWordStart : Agrees Bytes.isWordStart Scan.isWordStart false where
  ascii c hc := of_ascii (P := fun c => Bytes.isWordStart c.toUInt8 = Scan.isWordStart c)
    (by decide +kernel) hc
  beyond b hb := of_beyond (P := fun b => Bytes.isWordStart b = false) (by decide +kernel) hb
  wide c hc := by
    have hv := toNat_of_wide hc
    delta Scan.isWordStart Char.isAlpha Char.isUpper Char.isLower
    simp [UInt32.le_iff_toNat_le, ne_of_wide hc (by decide : '_'.val ≤ 127)]
    omega

theorem agrees_isWordByte : Agrees Bytes.isWordByte Scan.isWordChar false where
  ascii c hc := of_ascii (P := fun c => Bytes.isWordByte c.toUInt8 = Scan.isWordChar c)
    (by decide +kernel) hc
  beyond b hb := of_beyond (P := fun b => Bytes.isWordByte b = false) (by decide +kernel) hb
  wide c hc := by
    have hstart := agrees_isWordStart.wide c hc
    have hdigit := agrees_isDigit.wide c hc
    simp_all [Scan.isWordStart, Scan.isWordChar, Char.isAlphanum]

theorem agrees_ofByte? : Agrees Symbol.ofByte? Symbol.ofChar? none where
  ascii c hc := of_ascii (P := fun c => Symbol.ofByte? c.toUInt8 = Symbol.ofChar? c)
    (by decide +kernel) hc
  beyond b hb := of_beyond (P := fun b => Symbol.ofByte? b = none) (by decide +kernel) hb
  wide c hc := by
    refine List.find?_eq_none.mpr fun s _ hs => ?_
    have hascii : s.char.val ≤ 127 := by cases s <;> decide
    exact ne_of_wide hc hascii (by simpa using hs : s.char = c).symm

end

section

variable {cs r : List Char} {p : Pos} {ended : Bool}

theorem bumpWhile_of_none {onByte : UInt8 → Bool} (h : l.peek? = none) :
    l.bumpWhile onByte = l := by
  rw [bumpWhile]
  split
  · rfl
  · next hsome => simp [h] at hsome

/-- Going on over bytes is going on over characters, if both tests agree. -/
theorem Tracks.bumpWhile {onByte : UInt8 → Bool} {onChar : Char → Bool} {other : Bool}
    (hagree : Agrees onByte onChar other) (h : l.Tracks ⟨cs, p, ended⟩) :
    (l.bumpWhile onByte).Tracks ⟨cs.dropWhile onChar, p.after (cs.takeWhile onChar), ended⟩ := by
  induction cs generalizing l p with
  | nil =>
    rw [bumpWhile_of_none h.peek?_nil]
    exact h
  | cons c r ih =>
    obtain ⟨b, hb⟩ := h.peek?_cons
    rw [bumpWhile_of_some hb, h.agree hagree hb]
    cases hchar : onChar c with
    | false => simpa [hchar] using h
    | true =>
      have hgo (hc : ¬c.val ≤ 127) : Onward (Lexer.bumpWhile onByte : Lexer source → _) := by
        intro k b hk hb
        have hother : other = true := (hagree.wide c hc).symm.trans hchar
        rw [bumpWhile_of_some hk, hagree.beyond b hb, hother, if_pos rfl]
      obtain ⟨l', hl', hpass⟩ := h.onward hgo
      simpa [hchar, hpass] using ih hl'

/-- The byte behind the next one. -/
theorem ahead?_one {b : UInt8} (h : l.peek? = some b) : l.ahead? 1 = l.bump.peek? := by
  rw [peek?_eq] at h
  obtain ⟨bs, hbytes⟩ := List.head?_eq_some_iff.mp h
  rw [ahead?_eq, peek?_eq, bytes_bump hbytes, hbytes, List.head?_eq_getElem?]
  rfl

theorem skipBlock_of_some {opened : Pos} {b : UInt8} (h : l.peek? = some b) :
    l.skipBlock opened =
      if b = '*'.toUInt8 ∧ l.bump.peek? = some '/'.toUInt8 then (.ok (), l.bump.bump)
      else l.bump.skipBlock opened := by
  rw [Lexer.skipBlock]
  split
  · next hnone => simp [h] at hnone
  · next b' hb' =>
    obtain rfl : b = b' := Option.some.inj (h.symm.trans hb')
    simp only [ahead?_one h]

/-- Where a block comment ends, code goes on; one without an end goes to the end of the source. -/
theorem Tracks.skipBlock (opened : Pos) (h : l.Tracks ⟨cs, p, ended⟩) :
    (∃ l' p' cs', l.skipBlock opened = (.ok (), l') ∧ l'.Tracks ⟨cs', p', ended⟩ ∧
        Trivia.skip (.block opened) p cs = Trivia.skip .code p' cs') ∨
      ∃ l' finish, l.skipBlock opened = (.error ⟨.openComment, opened⟩, l') ∧
        l'.Tracks ⟨[], finish, ended⟩ ∧
        Trivia.skip (.block opened) p cs = .openComment opened finish := by
  induction cs generalizing l p with
  | nil =>
    right
    refine ⟨l, p, ?_, h, rfl⟩
    rw [Lexer.skipBlock]
    split
    · rfl
    · next hsome => simp [h.peek?_nil] at hsome
  | cons c r ih =>
    obtain ⟨b, hb⟩ := h.peek?_cons
    rw [skipBlock_of_some hb]
    split
    · next hclose =>
      obtain rfl : c = '*' := (h.byte_eq_iff hb (by decide)).mp hclose.1
      have hbump := (h.bump_ascii (by decide)).2
      obtain ⟨r', rfl⟩ := (hbump.peek?_eq_some (by decide)).mp hclose.2
      exact .inl ⟨_, _, _, rfl, (hbump.bump_ascii (by decide)).2, by rw [Trivia.skip]⟩
    · next hopen =>
      have hgo : Onward (Lexer.skipBlock opened : Lexer source → _) := by
        intro k b hk hb
        rw [skipBlock_of_some hk, if_neg fun hstar => ne_of_beyond hb (by decide) hstar.1]
      obtain ⟨l', hl', hpass⟩ := h.onward fun _ => hgo
      have hskip : Trivia.skip (.block opened) p (c :: r) =
          Trivia.skip (.block opened) (p.next c) r := by
        rw [Trivia.skip.eq_9]
        rintro r' rfl rfl
        have hbump := (h.bump_ascii (by decide)).2
        exact hopen ⟨(h.byte_eq_iff hb (by decide)).mpr rfl,
          (hbump.peek?_eq_some (by decide)).mpr ⟨r', rfl⟩⟩
      rw [hpass, hskip]
      exact ih hl'

/-- The next two bytes are given ASCII characters exactly when the next two characters are. -/
theorem Tracks.two_eq_some (h : l.Tracks ⟨cs, p, ended⟩) {b : UInt8} (hb : l.peek? = some b)
    {d d' : Char} (hd : d.val ≤ 127) (hd' : d'.val ≤ 127) :
    b = d.toUInt8 ∧ l.ahead? 1 = some d'.toUInt8 ↔ ∃ r, cs = d :: d' :: r := by
  obtain ⟨c, r, rfl, _⟩ := h.peek?_cases hb
  rw [h.byte_eq_iff hb hd, ahead?_one hb]
  constructor
  · rintro ⟨rfl, hahead⟩
    obtain ⟨r', rfl⟩ := ((h.bump_ascii hd).2.peek?_eq_some hd').mp hahead
    exact ⟨r', rfl⟩
  · rintro ⟨r', hcons⟩
    cases hcons
    exact ⟨rfl, ((h.bump_ascii hd).2.peek?_eq_some hd').mpr ⟨r', rfl⟩⟩

/-- Behind the rest of a line code goes on. -/
theorem skip_line (p : Pos) (cs : List Char) :
    Trivia.skip .line p cs =
      Trivia.skip .code (p.after (cs.takeWhile (· != '\n'))) (cs.dropWhile (· != '\n')) := by
  induction cs generalizing p with
  | nil => rfl
  | cons c r ih =>
    rw [Trivia.skip.eq_7]
    split
    · next hc => simp [hc, Trivia.skip, Trivia.isBlank]
    · next hc => simp [hc, ih]

/-- The lexer skips what the stream skips, or reports the same open comment. -/
theorem Tracks.skipTrivia (h : l.Tracks ⟨cs, p, ended⟩) :
    (∃ l' q rest, l.skipTrivia = (.ok (), l') ∧ l'.Tracks ⟨rest, q, ended⟩ ∧
        Trivia.skip .code p cs = .upTo q rest) ∨
      ∃ l' opened finish, l.skipTrivia = (.error ⟨.openComment, opened⟩, l') ∧
        l'.Tracks ⟨[], finish, ended⟩ ∧ Trivia.skip .code p cs = .openComment opened finish := by
  fun_induction Lexer.skipTrivia l generalizing cs p with
  | case1 l hnone =>
    cases cs with
    | nil => exact .inl ⟨l, p, [], rfl, h, rfl⟩
    | cons c r =>
      obtain ⟨b, hb⟩ := h.peek?_cons
      simp [hb] at hnone
  | case2 l b hb hlt hblank ih =>
    obtain ⟨c, r, rfl, ⟨hc, rfl⟩ | ⟨_, hbeyond⟩⟩ := h.peek?_cases hb
    · rw [agrees_isBlank.ascii c hc] at hblank
      have hslash : c ≠ '/' := by
        rintro rfl
        cases hblank
      have hskip : Trivia.skip .code p (c :: r) = Trivia.skip .code (p.next c) r := by
        rw [Trivia.skip.eq_6, if_pos hblank]
        · exact fun _ hc _ => hslash hc
        · exact fun _ hc _ => hslash hc
      rw [hskip]
      exact ih (h.bump_ascii hc).2
    · rw [agrees_isBlank.beyond b hbeyond] at hblank
      cases hblank
  | case3 l b hb hlt hblank hline hlt' ih =>
    obtain ⟨r, rfl⟩ := (h.two_eq_some hb (by decide) (by decide)).mp hline
    have hrest := h.bumpWhile (agrees_ne (by decide : '\n'.val ≤ 127))
    rw [Trivia.skip, skip_line]
    exact ih hrest
  | case4 l b hb hlt hblank hline hblock e l' hskip =>
    obtain ⟨r, rfl⟩ := (h.two_eq_some hb (by decide) (by decide)).mp hblock
    have hinside := ((h.bump_ascii (by decide)).2.bump_ascii (by decide)).2
    rw [show l.pos = p from h.pos_eq] at hskip
    rw [Trivia.skip]
    rcases hinside.skipBlock p with ⟨_, _, _, hclosed, _⟩ | ⟨l'', finish, hopen, hend, hopened⟩
    · rw [hskip] at hclosed
      cases hclosed
    · rw [hskip] at hopen
      cases hopen
      exact .inr ⟨l', p, finish, rfl, hend, hopened⟩
  | case5 l b hb hlt hblank hline hblock u l' hskip hle hlt' ih =>
    obtain ⟨r, rfl⟩ := (h.two_eq_some hb (by decide) (by decide)).mp hblock
    have hinside := ((h.bump_ascii (by decide)).2.bump_ascii (by decide)).2
    rw [show l.pos = p from h.pos_eq] at hskip
    rw [Trivia.skip]
    rcases hinside.skipBlock p with ⟨l'', q, rest, hclosed, hrest, hcode⟩ | ⟨_, _, hopen, _⟩
    · rw [hskip] at hclosed
      cases hclosed
      rw [hcode]
      exact ih hrest
    · rw [hskip] at hopen
      cases hopen
  | case6 l b hb hlt hblank hline hblock =>
    left
    refine ⟨l, p, cs, rfl, h, ?_⟩
    rw [h.two_eq_some hb (by decide) (by decide)] at hline hblock
    obtain ⟨c, r, rfl, _⟩ := h.peek?_cases hb
    rw [h.agree agrees_isBlank hb] at hblank
    rw [Trivia.skip.eq_6, if_neg hblank]
    · rintro r' rfl rfl
      exact hline ⟨r', rfl⟩
    · rintro r' rfl rfl
      exact hblock ⟨r', rfl⟩

end

section Slices

variable {s s' : Stream}

theorem Tracks.isValid (h : l.Tracks s) : (⟨l.offset⟩ : String.Pos.Raw).IsValid source := by
  obtain ⟨before, hsource, hoffset⟩ := h.split
  refine String.Pos.Raw.isValid_iff_exists_append.mpr
    ⟨String.ofList before, String.ofList s.rest, ?_, ?_⟩
  · rw [← String.ofList_append, ← hsource, String.ofList_toList]
  · rw [hoffset, length_encode]
    rfl

/-- Between two places at characters the source can be cut. -/
theorem slice?_of_tracks {mid : List Char} (h : l.Tracks s) (h' : l'.Tracks s')
    (hmid : s.rest = mid ++ s'.rest) :
    slice? source l.offset l'.offset = some (String.ofList mid) := by
  obtain ⟨before, hsource, hoffset⟩ := h.split
  obtain ⟨before', hsource', hoffset'⟩ := h'.split
  rw [hmid, ← List.append_assoc] at hsource
  have hbefore : before' = before ++ mid := List.append_cancel_right (hsource'.symm.trans hsource)
  have hle : l.offset ≤ l'.offset := by simp [hoffset, hoffset', hbefore]
  unfold slice?
  rw [dif_pos ⟨hle, h.isValid, h'.isValid⟩]
  congr 1
  rw [← String.toByteArray_inj, String.toByteArray_extract, toByteArray_ofList]
  refine ByteArray.ext (Array.toList_inj.mp ?_)
  rw [ByteArray.data_extract, List.data_toByteArray, Array.toList_extract,
    bytes_of_toList hsource]
  dsimp only
  rw [hoffset, hoffset', hbefore]
  simp

theorem token_of_tracks {mid : List Char} (h : l.Tracks s) (h' : l'.Tracks s')
    (hmid : s.rest = mid ++ s'.rest) (lexeme : String → Lexeme) :
    l.token l' lexeme = .ok ⟨lexeme (String.ofList mid), s.pos⟩ := by
  simp only [token, slice?_of_tracks h h' hmid, h.pos_eq]

/-- The character that starts no token is the next one. -/
theorem stray_of_tracks {c : Char} {r : List Char} {p : Pos} {ended : Bool}
    (h : l.Tracks ⟨c :: r, p, ended⟩) : l.stray = ⟨.stray c, p⟩ := by
  have hend : Tracks (⟨source.utf8ByteSize, p, ended⟩ : Lexer source) ⟨[], p, ended⟩ := by
    refine ⟨⟨source.toList, by simp, ?_⟩, rfl, rfl⟩
    rw [length_encode, String.ofList_toList]
  have hslice : slice? source l.offset source.utf8ByteSize = some (String.ofList (c :: r)) :=
    slice?_of_tracks h hend (by simp)
  simp only [stray, hslice, h.pos_eq]
  simp

end Slices

section Quotes

variable {cs : List Char} {p : Pos} {ended : Bool}

theorem toQuote_of_some {b : UInt8} (h : l.peek? = some b) :
    l.toQuote =
      if b = '"'.toUInt8 ∨ b = '\n'.toUInt8 then l
      else if b = '\\'.toUInt8 then
        if l.bump.peek? = none ∨ l.bump.peek? = some '\n'.toUInt8 then l.bump
        else l.bump.bump.toQuote
      else l.bump.toQuote := by
  rw [toQuote]
  split
  · next hnone => simp [h] at hnone
  · next b' hb' =>
    obtain rfl : b = b' := Option.some.inj (h.symm.trans hb')
    split
    · rfl
    · split
      · split
        · next hnone => simp [hnone]
        · next hsome =>
          simp [hsome]
      · rfl

theorem onward_toQuote : Onward (toQuote : Lexer source → Lexer source) := by
  intro l b h hb
  rw [toQuote_of_some h, if_neg, if_neg (ne_of_beyond hb (by decide))]
  exact not_or.mpr ⟨ne_of_beyond hb (by decide), ne_of_beyond hb (by decide)⟩

/-- A quoted text goes to its closing quote, or to what cuts it off. -/
theorem Tracks.toQuote (h : l.Tracks ⟨cs, p, ended⟩) :
    l.toQuote.Tracks ⟨if (Scan.quotation cs).closed then '"' :: (Scan.quotation cs).rest
      else (Scan.quotation cs).rest, p.after (Scan.quotation cs).raw, ended⟩ := by
  fun_induction Scan.quotation cs generalizing l p with
  | case1 =>
    rw [Lexer.toQuote]
    split
    · exact h
    · next hsome => simp [h.peek?_nil] at hsome
  | case2 r =>
    rw [toQuote_of_some (h.bump_ascii (by decide)).1, if_pos (.inl rfl)]
    exact h
  | case3 r =>
    rw [toQuote_of_some (h.bump_ascii (by decide)).1, if_pos (.inr rfl)]
    exact h
  | case4 =>
    obtain ⟨hb, hbump⟩ := h.bump_ascii (by decide)
    rw [toQuote_of_some hb, if_neg (by decide), if_pos rfl, if_pos (.inl hbump.peek?_nil)]
    exact hbump
  | case5 r =>
    obtain ⟨hb, hbump⟩ := h.bump_ascii (by decide)
    rw [toQuote_of_some hb, if_neg (by decide), if_pos rfl,
      if_pos (.inr (hbump.bump_ascii (by decide)).1)]
    exact hbump
  | case6 c r hc ih =>
    obtain ⟨hb, hbump⟩ := h.bump_ascii (by decide)
    obtain ⟨l', hl', hpass⟩ := hbump.onward fun _ => onward_toQuote
    obtain ⟨b', hb'⟩ := hbump.peek?_cons
    have hnot : ¬(l.bump.peek? = none ∨ l.bump.peek? = some '\n'.toUInt8) := by
      simp only [hb', Option.some.injEq, hbump.byte_eq_iff hb' (by decide : '\n'.val ≤ 127)]
      simpa using hc
    rw [toQuote_of_some hb, if_neg (by decide), if_pos rfl, if_neg hnot, hpass]
    exact ih hl'
  | case7 c r hquote hfeed hlast hescapedFeed hescaped ih =>
    have hslash : c ≠ '\\' := by
      intro hc
      cases r with
      | nil => exact hlast hc rfl
      | cons c' r' => exact hescaped c' r' hc rfl
    obtain ⟨b, hb⟩ := h.peek?_cons
    obtain ⟨l', hl', hpass⟩ := h.onward fun _ => onward_toQuote
    have hstop : ¬(b = '"'.toUInt8 ∨ b = '\n'.toUInt8) := by
      rw [h.byte_eq_iff hb (by decide), h.byte_eq_iff hb (by decide)]
      exact not_or.mpr ⟨hquote, hfeed⟩
    rw [toQuote_of_some hb, if_neg hstop, if_neg (mt (h.byte_eq_iff hb (by decide)).mp hslash),
      hpass]
    exact ih hl'

end Quotes

section Numbers

variable {cs : List Char} {p : Pos} {ended : Bool}

/-- Leading zeros are digits too. -/
theorem bumpWhile_zeros (l : Lexer source) :
    (l.bumpWhile (· == '0'.toUInt8)).bumpWhile Bytes.isDigit = l.bumpWhile Bytes.isDigit := by
  fun_induction Lexer.bumpWhile (· == '0'.toUInt8) l with
  | case1 => rfl
  | case2 l b hb _ hzero ih =>
    obtain rfl : b = '0'.toUInt8 := by simpa using hzero
    rw [ih, bumpWhile_of_some hb, if_pos (by decide)]
  | case3 => rfl

/-- The digits of a number end where the literal ends. -/
theorem Tracks.skipDigits (h : l.Tracks ⟨cs, p, ended⟩) :
    l.skipDigits.Tracks
      ⟨(Scan.literal false cs).2, p.after (Scan.literal false cs).1.text, ended⟩ := by
  have hwhole := h.bumpWhile agrees_isDigit
  unfold Lexer.skipDigits Scan.literal
  simp only [bumpWhile_zeros]
  split
  · next hpoint =>
    obtain ⟨r, hr⟩ := (hwhole.peek?_eq_some (by decide)).mp hpoint
    rw [hr] at hwhole
    have hplaces := (hwhole.bump_ascii (by decide)).2.bumpWhile agrees_isDigit
    simpa [hr, Number.Literal.text] using hplaces
  · next hpoint =>
    rw [hwhole.peek?_eq_some (by decide)] at hpoint
    split
    · next r hr => exact absurd ⟨r, hr⟩ hpoint
    · simpa [Number.Literal.text] using hwhole

/-- A literal with digits before its point is found in its text. -/
theorem ofText_text {n : Number.Literal} (hdigits : ∀ c ∈ n.whole, c.isDigit = true) :
    Number.Literal.ofText n.text = n := by
  obtain ⟨negative, whole, fraction⟩ := n
  have hne {d : Char} (hd : d.isDigit = false) (c : Char) (hc : c ∈ whole) : c ≠ d := by
    rintro rfl
    rw [hdigits c hc] at hd
    cases hd
  have hpoint : ∀ c ∈ whole, (c != '.') = true := by simpa using hne (by decide)
  have hparts (more : List Char) (hmore : more.head? ≠ some '-') :
      Number.Literal.ofText ((if negative then ['-'] else []) ++ whole ++ more) =
        ⟨negative, whole ++ more.takeWhile (· != '.'), (more.dropWhile (· != '.')).tail?⟩ := by
    have hsign : (whole ++ more).head? ≠ some '-' := by
      cases whole with
      | nil => exact hmore
      | cons c r => simpa using hne (by decide) c (by simp)
    cases negative with
    | false =>
      change Number.Literal.ofText (whole ++ more) = _
      rw [Number.Literal.ofText, if_neg hsign, decide_eq_false hsign,
        List.takeWhile_append_of_pos hpoint, List.dropWhile_append_of_pos hpoint]
    | true =>
      change Number.Literal.ofText ('-' :: (whole ++ more)) = _
      rw [Number.Literal.ofText, List.head?_cons, if_pos rfl, List.tail_cons,
        List.takeWhile_append_of_pos hpoint, List.dropWhile_append_of_pos hpoint]
      rfl
  cases fraction with
  | none =>
    rw [Number.Literal.text, hparts [] (by simp)]
    simp
  | some ds =>
    rw [Number.Literal.text, hparts ('.' :: ds) (by simp)]
    simp

end Numbers

section Tokens

variable {c : Char} {cs r : List Char} {p : Pos} {ended : Bool} {b : UInt8}

/-- What came out of the lexer is what a scan from `p` found. -/
structure Scans (answer : Except LexError Token × Lexer source) (p : Pos) (ended : Bool)
    (found : Scan) : Prop where
  answer_eq : answer.1 = found.found.map (⟨·, p⟩)
  tracks : answer.2.Tracks ⟨found.rest, p.after found.taken, ended⟩

/-- A text that is not closed is not cut off by a quote. -/
theorem rest_of_unclosed (h : (Scan.quotation cs).closed = false) (r : List Char) :
    (Scan.quotation cs).rest ≠ '"' :: r := by
  fun_induction Scan.quotation cs with
  | case1 => simp
  | case2 => cases h
  | case3 => simp
  | case4 => simp
  | case5 => simp
  | case6 _ _ _ ih => exact ih h
  | case7 _ _ _ _ _ _ _ ih => exact ih h

/-- A quoted text is scanned alike: no byte of a longer character is taken for a quote or a
backslash. -/
theorem Tracks.quoted (h : l.Tracks ⟨'"' :: r, p, ended⟩) :
    Scans l.quoted p ended (Scan.scan p ('"' :: r)) := by
  have hopen := (h.bump_ascii (by decide)).2
  have hclose := hopen.toQuote
  have hsplit := Scan.quotation_split r
  have hscan : Scan.scan p ('"' :: r) =
      ⟨if (Scan.quotation r).closed then .ok (.quoted (String.ofList (Scan.quotation r).raw))
        else .error ⟨.openText, p⟩, '"' :: (Scan.quotation r).taken, (Scan.quotation r).rest⟩ := rfl
  rw [hscan]
  unfold Lexer.quoted
  dsimp only
  cases hclosed : (Scan.quotation r).closed with
  | true =>
    rw [Scan.Quotation.taken, hclosed, if_pos rfl] at hsplit
    rw [hclosed, if_pos rfl] at hclose
    have hslice := slice?_of_tracks hopen hclose (by simpa using hsplit.symm)
    rw [if_pos ((hclose.peek?_eq_some (by decide)).mpr ⟨_, rfl⟩), hslice]
    refine ⟨by rw [h.pos_eq]; rfl, ?_⟩
    simpa [Scan.Quotation.taken, hclosed] using (hclose.bump_ascii (by decide)).2
  | false =>
    rw [hclosed, if_neg (by decide)] at hclose
    rw [if_neg]
    · refine ⟨by rw [h.pos_eq]; rfl, ?_⟩
      simpa [Scan.Quotation.taken, hclosed] using hclose
    · rw [hclose.peek?_eq_some (by decide)]
      rintro ⟨r', hr'⟩
      exact rest_of_unclosed hclosed r' hr'

/-- A minus is the only difference between a negative number and one that is not. -/
theorem literal_negative (negative : Bool) (cs : List Char) :
    (Scan.literal negative cs).1.text =
        (if negative then ['-'] else []) ++ (Scan.literal false cs).1.text ∧
      (Scan.literal negative cs).2 = (Scan.literal false cs).2 := by
  unfold Scan.literal
  dsimp only
  split <;> simp [Number.Literal.text]

theorem whole_literal_isDigit (negative : Bool) (cs : List Char) :
    ∀ c ∈ (Scan.literal negative cs).1.whole, c.isDigit = true := by
  have hwhole : (Scan.literal negative cs).1.whole = cs.takeWhile Char.isDigit := by
    unfold Scan.literal
    dsimp only
    split <;> rfl
  rw [hwhole]
  exact List.all_eq_true.mp List.all_takeWhile

/-- The number whose first digit is next, a minus before it or not. -/
theorem Tracks.digits {k : Lexer source} {negative : Bool}
    (h : l.Tracks ⟨(if negative then ['-'] else []) ++ cs, p, ended⟩)
    (hk : k.Tracks ⟨cs, p.after (if negative then ['-'] else []), ended⟩) :
    Scans (l.token k.skipDigits fun text => .number (.ofText text.toList), k.skipDigits) p ended
      (Scan.number negative cs) := by
  obtain ⟨htext, hrest⟩ := literal_negative negative cs
  have hstop := hk.skipDigits
  have hsplit := Scan.literal_split negative cs
  rw [hrest] at hsplit
  refine ⟨?_, ?_⟩
  · rw [token_of_tracks h hstop hsplit.symm]
    simp only [String.toList_ofList, ofText_text (whole_literal_isDigit negative cs)]
    rfl
  · change Lexer.Tracks _
      ⟨(Scan.literal negative cs).2, p.after (Scan.literal negative cs).1.text, _⟩
    rw [hrest, htext, Pos.after_append]
    exact hstop

/-- So is a number behind a minus. -/
theorem Tracks.minus (h : l.Tracks ⟨'-' :: r, p, ended⟩) :
    Scans l.number p ended (Scan.scan p ('-' :: r)) := by
  obtain ⟨hb, hbump⟩ := h.bump_ascii (by decide)
  unfold Lexer.number
  dsimp only
  rw [if_pos hb]
  cases r with
  | nil =>
    rw [hbump.peek?_nil]
    exact ⟨by rw [hbump.pos_eq]; rfl, hbump⟩
  | cons d r' =>
    obtain ⟨b', hb'⟩ := hbump.peek?_cons
    have hscan : Scan.scan p ('-' :: d :: r') =
        if d.isDigit then Scan.number true (d :: r')
        else ⟨.error ⟨.stray '-', p⟩, ['-'], d :: r'⟩ := rfl
    rw [hb', hscan]
    dsimp only
    rw [hbump.agree agrees_isDigit hb']
    split
    · exact h.digits hbump
    · exact ⟨by rw [h.pos_eq]; rfl, hbump⟩

/-- The token at the next character is the one a scan finds. -/
theorem Tracks.scan (h : l.Tracks ⟨c :: r, p, ended⟩) (hb : l.peek? = some b) :
    Scans (l.scan b) p ended (Scan.scan p (c :: r)) := by
  unfold Lexer.scan
  rw [h.agree agrees_ofByte? hb]
  cases hsymbol : Symbol.ofChar? c with
  | some symbol =>
    have hc : c.val ≤ 127 := by
      by_cases hc : c.val ≤ 127
      · exact hc
      · rw [agrees_ofByte?.wide c hc] at hsymbol
        cases hsymbol
    have hbump := (h.bump_ascii hc).2
    have hscan : Scan.scan p (c :: r) = ⟨.ok (.symbol symbol), [c], r⟩ := by
      simp only [Scan.scan, hsymbol]
    rw [hscan]
    exact ⟨token_of_tracks h hbump (show c :: r = [c] ++ r from rfl) _, hbump⟩
  | none =>
    dsimp only
    by_cases hquote : c = '"'
    · subst hquote
      rw [if_pos ((h.byte_eq_iff hb (by decide)).mpr rfl)]
      exact h.quoted
    · rw [if_neg (mt (h.byte_eq_iff hb (by decide)).mp hquote)]
      by_cases hminus : c = '-'
      · subst hminus
        rw [if_pos (by simp [(h.byte_eq_iff hb (by decide : '-'.val ≤ 127)).mpr])]
        exact h.minus
      · have hb' := mt (h.byte_eq_iff hb (by decide)).mp hminus
        rw [h.agree agrees_isDigit hb, h.agree agrees_isWordStart hb]
        simp only [Scan.scan, hsymbol, hquote, hminus, hb', if_false, decide_false, Bool.false_or]
        cases hdigit : c.isDigit with
        | true =>
          have hnumber : l.number =
              (l.token l.skipDigits fun text => .number (.ofText text.toList), l.skipDigits) := by
            unfold Lexer.number
            rw [hb, if_neg (by simpa using hb')]
          simp only [if_true, hnumber]
          exact h.digits (show l.Tracks ⟨c :: r, p.after [], ended⟩ from h)
        | false =>
          cases hword : Scan.isWordStart c with
          | true =>
            have hstop := h.bumpWhile agrees_isWordByte
            have hchar : Scan.isWordChar c = true := by
              simp_all [Scan.isWordStart, Scan.isWordChar, Char.isAlphanum]
            simp only [List.takeWhile_cons_of_pos hchar, List.dropWhile_cons_of_pos hchar] at hstop
            have hsplit : c :: r =
                c :: r.takeWhile Scan.isWordChar ++ r.dropWhile Scan.isWordChar := by
              simp
            simp only [if_true, Bool.false_eq_true, if_false]
            exact ⟨token_of_tracks h hstop hsplit _, hstop⟩
          | false =>
            simp only [Bool.false_eq_true, if_false]
            exact ⟨by rw [stray_of_tracks h]; rfl, h⟩

/-- The lexer reads the tokens of the stream behind it, and its errors. -/
theorem Tracks.next {s : Stream} (h : l.Tracks s) :
    l.next.1 = s.next.1 ∧ l.next.2.Tracks s.next.2 := by
  obtain ⟨cs, p, ended⟩ := s
  unfold Lexer.next Stream.next
  rw [show l.ended = ended from h.ended_eq]
  cases ended with
  | true => exact ⟨by rw [h.pos_eq]; rfl, h⟩
  | false =>
    simp only [Bool.false_eq_true, if_false]
    rcases h.skipTrivia with
      ⟨l', q, rest, hlexer, hl', hstream⟩ | ⟨l', opened, finish, hlexer, hl', hstream⟩
    · rw [hlexer, hstream]
      dsimp only
      cases rest with
      | nil =>
        rw [hl'.peek?_nil]
        exact ⟨by rw [hl'.pos_eq]; rfl, hl'.split, hl'.pos_eq, rfl⟩
      | cons c r =>
        obtain ⟨b, hb⟩ := hl'.peek?_cons
        rw [hb]
        obtain ⟨hanswer, htracks⟩ := hl'.scan hb
        dsimp only
        cases hfound : (Scan.scan q (c :: r)).found with
        | error e =>
          rw [hfound] at hanswer
          exact ⟨hanswer, htracks⟩
        | ok lexeme =>
          rw [hfound] at hanswer
          have hlexeme : lexeme ≠ .endOfInput := (passes_of_scan hb (Prod.ext hanswer rfl)).1
          simp only [beq_eq_false_iff_ne.mpr hlexeme]
          exact ⟨hanswer, htracks⟩
    · rw [hlexer, hstream]
      exact ⟨rfl, hl'⟩

end Tokens

section Blocks

variable {cs : List Char} {p : Pos} {ended : Bool} {depth : Nat}

theorem toBrace_of_some {b : UInt8} (h : l.peek? = some b) :
    l.toBrace depth =
      if b = '\x7b'.toUInt8 then l.bump.toBrace (depth + 1)
      else if b = '\x7d'.toUInt8 then if depth = 0 then l else l.bump.toBrace (depth - 1)
      else l.bump.toBrace depth := by
  rw [toBrace.eq_def]
  split
  · next hnone => simp [h] at hnone
  · next b' hb' =>
    obtain rfl : b = b' := Option.some.inj (h.symm.trans hb')
    cases depth <;> rfl

theorem onward_toBrace (depth : Nat) : Onward (toBrace depth : Lexer source → Lexer source) := by
  intro l b h hb
  rw [toBrace_of_some h, if_neg (ne_of_beyond hb (by decide)), if_neg (ne_of_beyond hb (by decide))]

/-- The lexer went where the text `cs` is split: to a closing brace, or to the end. -/
structure StopsAtBrace (l : Lexer source) (p : Pos) (ended : Bool) (cs : List Char)
    (split : Option (List Char × List Char)) : Prop where
  open_tracks : split = none → l.Tracks ⟨[], p.after cs, ended⟩
  closed_tracks : ∀ inner rest, split = some (inner, rest) →
    l.Tracks ⟨'\x7d' :: rest, p.after inner, ended⟩

theorem StopsAtBrace.cons {c : Char} {r : List Char} {split : Option (List Char × List Char)}
    (h : StopsAtBrace l (p.next c) ended r split) :
    StopsAtBrace l p ended (c :: r) (split.map fun q => (c :: q.1, q.2)) where
  open_tracks hnone := h.open_tracks (Option.map_eq_none_iff.mp hnone)
  closed_tracks inner rest hsome := by
    obtain ⟨⟨inner', rest'⟩, hsplit, heq⟩ := Option.map_eq_some_iff.mp hsome
    cases heq
    exact h.closed_tracks inner' rest' hsplit

/-- A block goes to its closing brace, or to the end of the source. -/
theorem Tracks.toBrace (depth : Nat) (h : l.Tracks ⟨cs, p, ended⟩) :
    StopsAtBrace (l.toBrace depth) p ended cs (Stream.splitBraces depth cs) := by
  fun_induction Stream.splitBraces depth cs generalizing l p with
  | case1 depth =>
    refine ⟨fun _ => ?_, by simp⟩
    rw [Lexer.toBrace.eq_def]
    split
    · exact h
    · next hsome => simp [h.peek?_nil] at hsome
  | case2 r =>
    refine ⟨by simp, ?_⟩
    rintro inner rest ⟨⟩
    rw [toBrace_of_some (h.bump_ascii (by decide)).1, if_neg (by decide), if_pos rfl, if_pos rfl]
    exact h
  | case3 r d ih =>
    obtain ⟨hb, hbump⟩ := h.bump_ascii (by decide)
    rw [toBrace_of_some hb, if_neg (by decide), if_pos rfl, if_neg (by simp)]
    exact (ih hbump).cons
  | case4 depth r _ ih =>
    obtain ⟨hb, hbump⟩ := h.bump_ascii (by decide)
    rw [toBrace_of_some hb, if_pos rfl]
    exact (ih hbump).cons
  | case5 depth c r hclose hopen ih =>
    obtain ⟨b, hb⟩ := h.peek?_cons
    obtain ⟨l', hl', hpass⟩ := h.onward fun _ => onward_toBrace depth
    rw [toBrace_of_some hb, if_neg (mt (h.byte_eq_iff hb (by decide)).mp hopen),
      if_neg (mt (h.byte_eq_iff hb (by decide)).mp hclose), hpass]
    exact (ih hl').cons

/-- The lexer captures the blocks of the stream behind it. -/
theorem Tracks.capture {s : Stream} (h : l.Tracks s) :
    l.capture.1 = s.capture.1 ∧ l.capture.2.Tracks s.capture.2 := by
  obtain ⟨cs, p, ended⟩ := s
  unfold Lexer.capture Stream.capture
  rcases h.skipTrivia with
    ⟨l', q, rest, hlexer, hl', hstream⟩ | ⟨l', opened, finish, hlexer, hl', hstream⟩
  · rw [hlexer, hstream]
    dsimp only
    cases rest with
    | nil =>
      rw [hl'.peek?_nil]
      exact ⟨by rw [hl'.pos_eq], hl'⟩
    | cons c r =>
      obtain ⟨b, hb⟩ := hl'.peek?_cons
      rw [hb]
      dsimp only
      by_cases hc : c = '\x7b'
      · subst hc
        rw [if_pos ((hl'.byte_eq_iff hb (by decide)).mpr rfl), if_pos rfl]
        have hopen := (hl'.bump_ascii (by decide)).2
        obtain ⟨hend, hclose⟩ := hopen.toBrace 0
        cases hsplit : Stream.splitBraces 0 r with
        | none =>
          have hstop := hend hsplit
          rw [hstop.peek?_nil]
          exact ⟨by rw [hstop.pos_eq]; rfl, hstop⟩
        | some parts =>
          obtain ⟨inner, rest⟩ := parts
          have hstop := hclose inner rest hsplit
          obtain ⟨hbrace, hbehind⟩ := hstop.bump_ascii (by decide)
          have hslice := slice?_of_tracks hopen hstop (Stream.splitBraces_append hsplit)
          rw [hbrace, hslice]
          refine ⟨by rw [hl'.pos_eq], ?_⟩
          simpa using hbehind
      · rw [if_neg (mt (hl'.byte_eq_iff hb (by decide)).mp hc), if_neg hc]
        exact ⟨by rw [stray_of_tracks hl'], hl'⟩
  · rw [hlexer, hstream]
    exact ⟨rfl, hl'⟩

end Blocks

/-- The text `rest` is what the lexer has still to read: the bytes before its offset are those of
the text before `rest`. -/
def Ahead (l : Lexer source) (rest : List Char) : Prop :=
  ∃ before, source.toList = before ++ rest ∧ l.offset = (String.ofList before).utf8ByteSize

/-- The lexer `l'` is `l` moved over `taken`, with `rest` ahead of it. -/
structure Behind (l : Lexer source) (taken rest : List Char) (l' : Lexer source) : Prop where
  ahead : l'.Ahead rest
  pos_eq : l'.pos = l.pos.after taken
  ended_eq : l'.ended = l.ended

theorem Tracks.ahead {s : Stream} (h : l.Tracks s) : l.Ahead s.rest := by
  obtain ⟨before, hsource, hoffset⟩ := h.split
  exact ⟨before, hsource, by rw [hoffset, length_encode]⟩

theorem Ahead.tracks {rest : List Char} (h : l.Ahead rest) : l.Tracks ⟨rest, l.pos, l.ended⟩ := by
  obtain ⟨before, hsource, hoffset⟩ := h
  exact ⟨⟨before, hsource, by rw [hoffset, length_encode]⟩, rfl, rfl⟩

theorem Tracks.behind {taken rest : List Char}
    (h : l'.Tracks ⟨rest, l.pos.after taken, l.ended⟩) : l.Behind taken rest l' :=
  ⟨h.ahead, h.pos_eq, h.ended_eq⟩

section

variable {cs taken rest : List Char}

/-- What the stream of the text ahead answers, the lexer answers too. -/
theorem Ahead.next_eq (h : l.Ahead cs) {answer : Except LexError Token}
    (hnext : Stream.next ⟨cs, l.pos, l.ended⟩ = (answer, ⟨rest, l.pos.after taken, l.ended⟩)) :
    ∃ l', l.next = (answer, l') ∧ l.Behind taken rest l' := by
  obtain ⟨hanswer, htracks⟩ := h.tracks.next
  rw [hnext] at hanswer htracks
  exact ⟨l.next.2, Prod.ext hanswer rfl, htracks.behind⟩

theorem Ahead.capture_eq (h : l.Ahead cs) {answer : Except LexError Capture}
    (hcapture : Stream.capture ⟨cs, l.pos, l.ended⟩ =
      (answer, ⟨rest, l.pos.after taken, l.ended⟩)) :
    ∃ l', l.capture = (answer, l') ∧ l.Behind taken rest l' := by
  obtain ⟨hanswer, htracks⟩ := h.tracks.capture
  rw [hcapture] at hanswer htracks
  exact ⟨l.capture.2, Prod.ext hanswer rfl, htracks.behind⟩

end

end Kfx.Lexer

namespace Kfx

variable {S T : Type} [TokenSource S] [TokenSource T]

/-- Related sources of tokens give the same answers and stay related. -/
structure AnswersAlike (related : S → T → Prop) : Prop where
  next : ∀ {s t}, related s t → (TokenSource.next s).1 = (TokenSource.next t).1 ∧
    related (TokenSource.next s).2 (TokenSource.next t).2
  capture : ∀ {s t}, related s t → (TokenSource.capture s).1 = (TokenSource.capture t).1 ∧
    related (TokenSource.capture s).2 (TokenSource.capture t).2

namespace AnswersAlike

variable {related : S → T → Prop} {s s' : S} {t : T}

theorem flip (h : AnswersAlike related) : AnswersAlike fun t s => related s t where
  next hs := ⟨(h.next hs).1.symm, (h.next hs).2⟩
  capture hs := ⟨(h.capture hs).1.symm, (h.capture hs).2⟩

theorem next_eq (h : AnswersAlike related) (hs : related s t) {answer : Except LexError Token}
    (hnext : TokenSource.next s = (answer, s')) :
    ∃ t', TokenSource.next t = (answer, t') ∧ related s' t' := by
  obtain ⟨hanswer, hrest⟩ := h.next hs
  rw [hnext] at hanswer hrest
  exact ⟨_, Prod.ext hanswer.symm rfl, hrest⟩

theorem capture_eq (h : AnswersAlike related) (hs : related s t)
    {answer : Except LexError Capture} (hcapture : TokenSource.capture s = (answer, s')) :
    ∃ t', TokenSource.capture t = (answer, t') ∧ related s' t' := by
  obtain ⟨hanswer, hrest⟩ := h.capture hs
  rw [hcapture] at hanswer hrest
  exact ⟨_, Prod.ext hanswer.symm rfl, hrest⟩

end AnswersAlike

theorem answersAlike_tracks (source : String) :
    AnswersAlike (Lexer.Tracks : Lexer source → Stream → Prop) :=
  ⟨Lexer.Tracks.next, Lexer.Tracks.capture⟩

end Kfx
