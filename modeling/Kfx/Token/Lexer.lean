import Kfx.Token.Basic

/-!
# The lexer

Reads tokens from the bytes of a source. A lexer stands at an offset and goes on byte by byte; the
texts of tokens are cut out of the source between two offsets. The lexer ends once: after the token
for the end of input there is no other token. Reading goes on after an error from wherever the error
left the lexer.
-/
namespace Kfx

namespace Bytes

def isBlank (b : UInt8) : Bool :=
  b = ' '.toUInt8 || b = '\t'.toUInt8 || b = '\r'.toUInt8 || b = '\n'.toUInt8

def isDigit (b : UInt8) : Bool :=
  '0'.toUInt8 ≤ b && b ≤ '9'.toUInt8

def isWordStart (b : UInt8) : Bool :=
  ('A'.toUInt8 ≤ b && b ≤ 'Z'.toUInt8) || ('a'.toUInt8 ≤ b && b ≤ 'z'.toUInt8) || b = '_'.toUInt8

def isWordByte (b : UInt8) : Bool :=
  isWordStart b || isDigit b

end Bytes

def Symbol.ofByte? (b : UInt8) : Option Symbol :=
  all.find? fun s => s.char.toUInt8 == b

/-- A place in the source, with its line and column, and whether the end has been reported. Going
back to a lexer that was kept is taking it up again. -/
structure Lexer (source : String) where
  offset : Nat
  pos : Pos
  ended : Bool
  deriving DecidableEq

namespace Lexer

def start (source : String) : Lexer source := ⟨0, .start, false⟩

variable {source : String}

/-- The byte `k` places ahead. -/
def ahead? (l : Lexer source) (k : Nat) : Option UInt8 :=
  if h : (⟨l.offset + k⟩ : String.Pos.Raw) < source.rawEndPos then
    some (source.getUTF8Byte ⟨l.offset + k⟩ h)
  else none

def peek? (l : Lexer source) : Option UInt8 := l.ahead? 0

def left (l : Lexer source) : Nat := source.utf8ByteSize - l.offset

def bump (l : Lexer source) : Lexer source :=
  match l.peek? with
  | none => l
  | some b => { l with offset := l.offset + 1, pos := l.pos.afterByte b }

theorem left_bump_lt {l : Lexer source} {b : UInt8} (h : l.peek? = some b) :
    l.bump.left < l.left := by
  have hlt : l.offset < source.utf8ByteSize := by
    unfold peek? ahead? at h
    split at h
    · next hlt => exact hlt
    · cases h
  simp only [bump, h, left]
  omega

/-- Goes on as long as the bytes satisfy `p`. -/
def bumpWhile (p : UInt8 → Bool) (l : Lexer source) : Lexer source :=
  match h : l.peek? with
  | none => l
  | some b =>
    have := left_bump_lt h
    if p b then l.bump.bumpWhile p else l
termination_by l.left

/-- Goes behind the block comment that was opened at `opened`. -/
def skipBlock (opened : Pos) (l : Lexer source) : Except LexError Unit × Lexer source :=
  match h : l.peek? with
  | none => (.error ⟨.openComment, opened⟩, l)
  | some b =>
    have := left_bump_lt h
    if b = '*'.toUInt8 ∧ l.ahead? 1 = some '/'.toUInt8 then (.ok (), l.bump.bump)
    else l.bump.skipBlock opened
termination_by l.left

/-- `l'` is further on in the source than `l`, or where `l` is. -/
structure Follows (l l' : Lexer source) : Prop where
  left_le : l'.left ≤ l.left
  ended_eq : l'.ended = l.ended

namespace Follows

variable {l l₁ l₂ : Lexer source}

theorem refl (l : Lexer source) : l.Follows l := ⟨Nat.le_refl _, rfl⟩

theorem trans (h₁ : l.Follows l₁) (h₂ : l₁.Follows l₂) : l.Follows l₂ :=
  ⟨Nat.le_trans h₂.left_le h₁.left_le, h₂.ended_eq.trans h₁.ended_eq⟩

end Follows

theorem follows_bump (l : Lexer source) : l.Follows l.bump := by
  cases h : l.peek? with
  | none => simp only [bump, h]; exact .refl l
  | some b => exact ⟨Nat.le_of_lt (left_bump_lt h), by simp [bump, h]⟩

theorem follows_bumpWhile (p : UInt8 → Bool) (l : Lexer source) : l.Follows (l.bumpWhile p) := by
  fun_induction bumpWhile p l with
  | case1 l _ => exact .refl l
  | case2 l _ _ _ _ ih => exact (follows_bump l).trans ih
  | case3 l _ _ _ _ => exact .refl l

theorem bumpWhile_of_some {p : UInt8 → Bool} {l : Lexer source} {b : UInt8}
    (h : l.peek? = some b) : l.bumpWhile p = if p b then l.bump.bumpWhile p else l := by
  rw [bumpWhile]
  split
  · next hnone => simp [h] at hnone
  · next b' hb' =>
    obtain rfl : b = b' := Option.some.inj (h.symm.trans hb')
    rfl

theorem left_bumpWhile_lt {p : UInt8 → Bool} {l : Lexer source} {b : UInt8} (h : l.peek? = some b)
    (hb : p b = true) : (l.bumpWhile p).left < l.left := by
  rw [bumpWhile_of_some h, if_pos hb]
  exact Nat.lt_of_le_of_lt (follows_bumpWhile p l.bump).left_le (left_bump_lt h)

theorem follows_skipBlock (opened : Pos) (l : Lexer source) :
    l.Follows (l.skipBlock opened).2 := by
  fun_induction skipBlock opened l with
  | case1 l _ => exact .refl l
  | case2 l _ _ _ _ => exact (follows_bump l).trans (follows_bump l.bump)
  | case3 l _ _ _ _ ih => exact (follows_bump l).trans ih

def skipTrivia (l : Lexer source) : Except LexError Unit × Lexer source :=
  match h : l.peek? with
  | none => (.ok (), l)
  | some b =>
    have hlt := left_bump_lt h
    if Bytes.isBlank b then l.bump.skipTrivia
    else if hline : b = '/'.toUInt8 ∧ l.ahead? 1 = some '/'.toUInt8 then
      have := left_bumpWhile_lt (p := (· != '\n'.toUInt8)) h (by rw [hline.1]; decide)
      (l.bumpWhile (· != '\n'.toUInt8)).skipTrivia
    else if b = '/'.toUInt8 ∧ l.ahead? 1 = some '*'.toUInt8 then
      match hblock : l.bump.bump.skipBlock l.pos with
      | (.error e, l') => (.error e, l')
      | (.ok _, l') =>
        have := ((follows_bump l.bump).trans (follows_skipBlock l.pos l.bump.bump)).left_le
        have : l'.left < l.left := by
          simp only [hblock] at this
          omega
        l'.skipTrivia
    else (.ok (), l)
termination_by l.left

theorem follows_skipTrivia (l : Lexer source) : l.Follows l.skipTrivia.2 := by
  fun_induction skipTrivia l with
  | case1 l _ => exact .refl l
  | case2 l _ _ _ _ ih => exact (follows_bump l).trans ih
  | case3 l _ _ _ _ _ _ ih => exact (follows_bumpWhile _ l).trans ih
  | case4 l _ _ _ _ _ _ e l' hblock =>
    have hfollows := follows_skipBlock l.pos l.bump.bump
    rw [hblock] at hfollows
    exact ((follows_bump l).trans (follows_bump l.bump)).trans hfollows
  | case5 l _ _ _ _ _ _ _ l' hblock _ _ ih =>
    have hfollows := follows_skipBlock l.pos l.bump.bump
    rw [hblock] at hfollows
    exact (((follows_bump l).trans (follows_bump l.bump)).trans hfollows).trans ih
  | case6 l _ _ _ _ _ _ => exact .refl l

/-- The text of the source between two offsets. There is none if an offset stands inside a
character. -/
def slice? (source : String) (start stop : Nat) : Option String :=
  if h : start ≤ stop ∧ (⟨start⟩ : String.Pos.Raw).IsValid source ∧
      (⟨stop⟩ : String.Pos.Raw).IsValid source then
    some (source.extract ⟨⟨start⟩, h.2.1⟩ ⟨⟨stop⟩, h.2.2⟩)
  else none

/-- The token from `l` up to `l'`, made of its text. -/
def token (l l' : Lexer source) (lexeme : String → Lexeme) : Except LexError Token :=
  match slice? source l.offset l'.offset with
  | none => .error ⟨.cut, l.pos⟩
  | some text => .ok ⟨lexeme text, l.pos⟩

/-- The error for a character that starts no token. -/
def stray (l : Lexer source) : LexError :=
  match slice? source l.offset source.utf8ByteSize with
  | none => ⟨.cut, l.pos⟩
  | some text => ⟨.stray (text.toList.head?.getD '\uFFFD'), l.pos⟩

/-- Goes to the quote that closes a text, or to what cuts it off: a line feed or the end. A
backslash takes the byte after it along, but not a line feed. -/
def toQuote (l : Lexer source) : Lexer source :=
  match h : l.peek? with
  | none => l
  | some b =>
    have := left_bump_lt h
    if b = '"'.toUInt8 ∨ b = '\n'.toUInt8 then l
    else if b = '\\'.toUInt8 then
      match h' : l.bump.peek? with
      | none => l.bump
      | some b' =>
        have := left_bump_lt h'
        if b' = '\n'.toUInt8 then l.bump else l.bump.bump.toQuote
    else l.bump.toQuote
termination_by l.left

/-- The quoted text whose opening quote is next. -/
def quoted (l : Lexer source) : Except LexError Token × Lexer source :=
  let close := l.bump.toQuote
  if close.peek? = some '"'.toUInt8 then
    match slice? source l.bump.offset close.offset with
    | none => (.error ⟨.cut, l.pos⟩, close)
    | some raw => (.ok ⟨.quoted raw, l.pos⟩, close.bump)
  else (.error ⟨.openText, l.pos⟩, close)

/-- Goes behind the digits of a number and, if a point follows, behind its other digits. -/
def skipDigits (l : Lexer source) : Lexer source :=
  let whole := (l.bumpWhile (· == '0'.toUInt8)).bumpWhile Bytes.isDigit
  if whole.peek? = some '.'.toUInt8 then whole.bump.bumpWhile Bytes.isDigit else whole

/-- The number whose sign or first digit is next. A minus must be followed by a digit. -/
def number (l : Lexer source) : Except LexError Token × Lexer source :=
  let made (stop : Lexer source) := (l.token stop fun text => .number (.ofText text.toList), stop)
  if l.peek? = some '-'.toUInt8 then
    match l.bump.peek? with
    | none => (.error ⟨.endOfInput, l.bump.pos⟩, l.bump)
    | some b =>
      if Bytes.isDigit b then made l.bump.skipDigits else (.error ⟨.stray '-', l.pos⟩, l.bump)
  else made l.skipDigits

/-- The token that starts with the byte `b`, which is next. -/
def scan (l : Lexer source) (b : UInt8) : Except LexError Token × Lexer source :=
  match Symbol.ofByte? b with
  | some symbol => (l.token l.bump fun _ => .symbol symbol, l.bump)
  | none =>
    if b = '"'.toUInt8 then l.quoted
    else if b = '-'.toUInt8 || Bytes.isDigit b then l.number
    else if Bytes.isWordStart b then
      let stop := l.bumpWhile Bytes.isWordByte
      (l.token stop .word, stop)
    else (.error l.stray, l)

def next (l : Lexer source) : Except LexError Token × Lexer source :=
  if l.ended then (.error ⟨.endOfInput, l.pos⟩, l)
  else
    match l.skipTrivia with
    | (.error e, l₁) => (.error e, l₁)
    | (.ok _, l₁) =>
      match l₁.peek? with
      | none => (.ok ⟨.endOfInput, l₁.pos⟩, { l₁ with ended := true })
      | some b => l₁.scan b

/-- Goes to the brace that closes a block, or to the end. `depth` counts the braces inside it that
are open. -/
def toBrace (depth : Nat) (l : Lexer source) : Lexer source :=
  match h : l.peek? with
  | none => l
  | some b =>
    have := left_bump_lt h
    if b = '\x7b'.toUInt8 then l.bump.toBrace (depth + 1)
    else if b = '\x7d'.toUInt8 then
      match depth with
      | 0 => l
      | d + 1 => l.bump.toBrace d
    else l.bump.toBrace depth
termination_by l.left

/-- Reads a block in braces as raw text. Nothing in it is looked at but braces, which must
balance. -/
def capture (l : Lexer source) : Except LexError Capture × Lexer source :=
  match l.skipTrivia with
  | (.error e, l₁) => (.error e, l₁)
  | (.ok _, l₁) =>
    match l₁.peek? with
    | none => (.error ⟨.endOfInput, l₁.pos⟩, l₁)
    | some b =>
      if b = '\x7b'.toUInt8 then
        let close := l₁.bump.toBrace 0
        match close.peek? with
        | none => (.error ⟨.endOfInput, close.pos⟩, close)
        | some _ =>
          match slice? source l₁.bump.offset close.offset with
          | none => (.error ⟨.cut, l₁.pos⟩, close)
          | some text => (.ok ⟨text, l₁.pos⟩, close.bump)
      else (.error l₁.stray, l₁)

/-- How much can still be read, counting the end of input as one more. -/
def size (l : Lexer source) : Nat :=
  l.left + if l.ended then 0 else 1

theorem follows_toQuote (l : Lexer source) : l.Follows l.toQuote := by
  fun_induction toQuote l with
  | case1 l => exact .refl l
  | case2 l => exact .refl l
  | case3 l => exact follows_bump l
  | case4 l => exact follows_bump l
  | case5 l _ _ _ _ _ _ _ ih => exact ((follows_bump l).trans (follows_bump l.bump)).trans ih
  | case6 l _ _ _ _ _ ih => exact (follows_bump l).trans ih

theorem follows_toBrace (depth : Nat) (l : Lexer source) : l.Follows (l.toBrace depth) := by
  fun_induction toBrace depth l with
  | case1 _ l => exact .refl l
  | case2 _ l _ _ ih => exact (follows_bump l).trans ih
  | case3 l => exact .refl l
  | case4 l _ _ _ _ ih => exact (follows_bump l).trans ih
  | case5 _ l _ _ _ _ _ ih => exact (follows_bump l).trans ih

/-- `l'` is further on than `l` by at least one byte. -/
structure Passes (l l' : Lexer source) : Prop where
  left_lt : l'.left < l.left
  ended_eq : l'.ended = l.ended

namespace Passes

variable {l l₁ l₂ : Lexer source}

theorem bump {b : UInt8} (h : l.peek? = some b) : l.Passes l.bump :=
  ⟨left_bump_lt h, (follows_bump l).ended_eq⟩

theorem bumpWhile {p : UInt8 → Bool} {b : UInt8} (h : l.peek? = some b) (hb : p b = true) :
    l.Passes (l.bumpWhile p) :=
  ⟨left_bumpWhile_lt h hb, (follows_bumpWhile p l).ended_eq⟩

theorem trans_follows (h₁ : l.Passes l₁) (h₂ : l₁.Follows l₂) : l.Passes l₂ :=
  ⟨Nat.lt_of_le_of_lt h₂.left_le h₁.left_lt, h₂.ended_eq.trans h₁.ended_eq⟩

theorem size_lt (h : l.Passes l₁) : l₁.size < l.size := by
  have := h.left_lt
  simp only [size, h.ended_eq]
  omega

end Passes

theorem Follows.trans_passes {l l₁ l₂ : Lexer source} (h₁ : l.Follows l₁) (h₂ : l₁.Passes l₂) :
    l.Passes l₂ :=
  ⟨Nat.lt_of_lt_of_le h₂.left_lt h₁.left_le, h₂.ended_eq.trans h₁.ended_eq⟩

variable {l l' : Lexer source} {t : Token} {b : UInt8}

theorem lexeme_of_token {lexeme : String → Lexeme} (h : l.token l' lexeme = .ok t) :
    ∃ text, t.lexeme = lexeme text := by
  unfold token at h
  split at h
  · cases h
  · next text _ =>
    cases h
    exact ⟨text, rfl⟩

theorem passes_of_quoted (hb : l.peek? = some b) (h : l.quoted = (.ok t, l')) :
    t.lexeme ≠ .endOfInput ∧ l.Passes l' := by
  unfold quoted at h
  simp only at h
  split at h
  · split at h
    · cases h
    · cases h
      have hclose := (follows_toQuote l.bump).trans (follows_bump l.bump.toQuote)
      exact ⟨by simp, (Passes.bump hb).trans_follows hclose⟩
  · cases h

theorem passes_skipDigits (hb : l.peek? = some b) (hdigit : Bytes.isDigit b = true) :
    l.Passes l.skipDigits := by
  have hwhole : l.Passes ((l.bumpWhile (· == '0'.toUInt8)).bumpWhile Bytes.isDigit) := by
    by_cases hzero : b = '0'.toUInt8
    · have hzeros : l.Passes (l.bumpWhile (· == '0'.toUInt8)) := .bumpWhile hb (by simp [hzero])
      exact hzeros.trans_follows (follows_bumpWhile _ _)
    · rw [bumpWhile_of_some hb, if_neg (by simpa using hzero)]
      exact .bumpWhile hb hdigit
  unfold skipDigits
  simp only
  split
  · exact hwhole.trans_follows ((follows_bump _).trans (follows_bumpWhile _ _))
  · exact hwhole

theorem passes_of_number (hb : l.peek? = some b) (hstart : b = '-'.toUInt8 ∨ Bytes.isDigit b = true)
    (h : l.number = (.ok t, l')) : t.lexeme ≠ .endOfInput ∧ l.Passes l' := by
  unfold number at h
  simp only at h
  split at h
  · split at h
    · cases h
    · next d hd =>
      split at h
      · next hdigit =>
        obtain ⟨hmade, rfl⟩ := Prod.mk.inj h
        obtain ⟨_, hlexeme⟩ := lexeme_of_token hmade
        exact ⟨by simp [hlexeme], (follows_bump l).trans_passes (passes_skipDigits hd hdigit)⟩
      · cases h
  · next hminus =>
    obtain ⟨hmade, rfl⟩ := Prod.mk.inj h
    obtain ⟨_, hlexeme⟩ := lexeme_of_token hmade
    have hdigit := hstart.resolve_left fun hb' => hminus (hb' ▸ hb)
    exact ⟨by simp [hlexeme], passes_skipDigits hb hdigit⟩

theorem passes_of_scan (hb : l.peek? = some b) (h : l.scan b = (.ok t, l')) :
    t.lexeme ≠ .endOfInput ∧ l.Passes l' := by
  unfold scan at h
  split at h
  · obtain ⟨hmade, rfl⟩ := Prod.mk.inj h
    obtain ⟨_, hlexeme⟩ := lexeme_of_token hmade
    exact ⟨by simp [hlexeme], .bump hb⟩
  · split at h
    · exact passes_of_quoted hb h
    · split at h
      · next hstart => exact passes_of_number hb (by simpa using hstart) h
      · split at h
        · next hword =>
          obtain ⟨hmade, rfl⟩ := Prod.mk.inj h
          obtain ⟨_, hlexeme⟩ := lexeme_of_token hmade
          exact ⟨by simp [hlexeme], .bumpWhile hb (by simp [Bytes.isWordByte, hword])⟩
        · cases h

/-- A token is read by a lexer that has not ended. One for the end of input ends it, any other takes
a byte. -/
theorem next_cases (h : l.next = (.ok t, l')) :
    l.ended = false ∧
      ((t.lexeme = .endOfInput ∧ l'.ended = true ∧ l'.left ≤ l.left) ∨
        (t.lexeme ≠ .endOfInput ∧ l.Passes l')) := by
  unfold next at h
  split at h
  · cases h
  · next hended =>
    refine ⟨by simpa using hended, ?_⟩
    have hskip := follows_skipTrivia l
    split at h
    · cases h
    · next l₁ htrivia =>
      rw [htrivia] at hskip
      split at h
      · cases h
        exact .inl ⟨rfl, rfl, hskip.left_le⟩
      · next b hb =>
        obtain ⟨hlexeme, hpasses⟩ := passes_of_scan hb h
        exact .inr ⟨hlexeme, hskip.trans_passes hpasses⟩

theorem next_size_lt (h : l.next = (.ok t, l')) : l'.size < l.size := by
  obtain ⟨hended, ⟨_, hended', hleft⟩ | ⟨_, hpasses⟩⟩ := next_cases h
  · simp only [size, hended, hended']
    simp
    omega
  · exact hpasses.size_lt

/-- A block takes at least its braces. -/
theorem passes_of_capture {block : Capture} (h : l.capture = (.ok block, l')) : l.Passes l' := by
  unfold capture at h
  have hskip := follows_skipTrivia l
  split at h
  · cases h
  · next l₁ htrivia =>
    rw [htrivia] at hskip
    split at h
    · cases h
    · next b hb =>
      split at h
      · simp only at h
        split at h
        · cases h
        · split at h
          · cases h
          · cases h
            have hclose := (follows_toBrace 0 l₁.bump).trans (follows_bump _)
            exact hskip.trans_passes ((Passes.bump hb).trans_follows hclose)
      · cases h

instance : TokenSource (Lexer source) where
  next := next
  capture := capture
  size := size
  next_size_lt := next_size_lt
  capture_size_lt h := (passes_of_capture h).size_lt

end Lexer

end Kfx
