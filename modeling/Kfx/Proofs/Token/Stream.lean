import Kfx.Proofs.Token.Scan
import Kfx.Proofs.Token.Trivia

/-!
# A source text being read

The characters of a source, read as the lexer reads its bytes, with no offsets to keep. The stream
ends once: after the token for the end of input there is no other token. Reading goes on after an
error from wherever the error left the stream.
-/
namespace Kfx

/-- The unread text, its place, and whether the end has been reported. -/
structure Stream where
  rest : List Char
  pos : Pos
  ended : Bool
  deriving DecidableEq

namespace Stream

def ofString (source : String) : Stream :=
  ⟨source.toList, .start, false⟩

/-- How much can still be read, counting the end of input as one more. -/
def size (s : Stream) : Nat :=
  s.rest.length + if s.ended then 0 else 1

def next (s : Stream) : Except LexError Token × Stream :=
  if s.ended then (.error ⟨.endOfInput, s.pos⟩, s)
  else
    match Trivia.skip .code s.pos s.rest with
    | .openComment opened finish => (.error ⟨.openComment, opened⟩, ⟨[], finish, false⟩)
    | .upTo p cs =>
      let found := Scan.scan p cs
      match found.found with
      | .error e => (.error e, ⟨found.rest, p.after found.taken, false⟩)
      | .ok l => (.ok ⟨l, p⟩, ⟨found.rest, p.after found.taken, l == .endOfInput⟩)

/-- Every token read leaves less to read. -/
theorem next_size_lt {s s' : Stream} {t : Token} (h : s.next = (.ok t, s')) :
    s'.size < s.size := by
  unfold next at h
  split at h
  · simp at h
  · next hended =>
    split at h
    · simp at h
    · next p cs hskip =>
      have hle := Trivia.skip_length_le hskip
      have hsplit := congrArg List.length (Scan.scan_split p cs)
      simp only [List.length_append] at hsplit
      simp only at h
      split at h
      · simp at h
      · next l hfound =>
        simp only [Prod.mk.injEq, Except.ok.injEq] at h
        obtain ⟨_, rfl⟩ := h
        by_cases hl : l = .endOfInput
        · simp [size, hl, hended]
          omega
        · have hpos := List.length_pos_iff.2 (Scan.taken_ne_nil hfound hl)
          simp [size, hl, hended]
          omega

/-- Splits a text behind an opening brace at the brace that closes it; `depth` counts the inner
braces that are open. -/
def splitBraces : Nat → List Char → Option (List Char × List Char)
  | _, [] => none
  | depth, c :: r =>
    if c = '\x7d' then
      match depth with
      | 0 => some ([], r)
      | d + 1 => (splitBraces d r).map fun q => (c :: q.1, q.2)
    else if c = '\x7b' then (splitBraces (depth + 1) r).map fun q => (c :: q.1, q.2)
    else (splitBraces depth r).map fun q => (c :: q.1, q.2)

/-- A block is cut out of the text as it stands. -/
theorem splitBraces_append {depth : Nat} {cs inner rest : List Char}
    (h : splitBraces depth cs = some (inner, rest)) : cs = inner ++ '\x7d' :: rest := by
  fun_induction splitBraces depth cs generalizing inner rest with
  | case1 => simp at h
  | case2 r => simp at h; simp [h]
  | case3 r d ih =>
    obtain ⟨q, hq, heq⟩ := Option.map_eq_some_iff.1 h
    obtain ⟨rfl, rfl⟩ := Prod.mk.inj heq
    simp [ih hq]
  | case4 depth r _ ih =>
    obtain ⟨q, hq, heq⟩ := Option.map_eq_some_iff.1 h
    obtain ⟨rfl, rfl⟩ := Prod.mk.inj heq
    simp [ih hq]
  | case5 depth c r _ _ ih =>
    obtain ⟨q, hq, heq⟩ := Option.map_eq_some_iff.1 h
    obtain ⟨rfl, rfl⟩ := Prod.mk.inj heq
    simp [ih hq]

/-- Reads a block in braces as raw text. Nothing in it is looked at but braces, which must
balance. -/
def capture (s : Stream) : Except LexError Capture × Stream :=
  match Trivia.skip .code s.pos s.rest with
  | .openComment opened finish => (.error ⟨.openComment, opened⟩, ⟨[], finish, s.ended⟩)
  | .upTo p [] => (.error ⟨.endOfInput, p⟩, ⟨[], p, s.ended⟩)
  | .upTo p (c :: r) =>
    if c = '\x7b' then
      match splitBraces 0 r with
      | none =>
        (.error ⟨.endOfInput, p.after (c :: r)⟩, ⟨[], p.after (c :: r), s.ended⟩)
      | some (inner, rest) =>
        (.ok ⟨String.ofList inner, p⟩,
          ⟨rest, p.after (c :: inner ++ ['\x7d']), s.ended⟩)
    else (.error ⟨.stray c, p⟩, ⟨c :: r, p, s.ended⟩)

/-- A block takes at least its braces. -/
theorem capture_size_lt {s s' : Stream} {b : Capture} (h : s.capture = (.ok b, s')) :
    s'.size < s.size := by
  unfold capture at h
  split at h
  · simp at h
  · simp at h
  · next p c r hskip =>
    have hle := Trivia.skip_length_le hskip
    split at h
    · split at h
      · simp at h
      · next inner rest hsplit =>
        have hlen := congrArg List.length (splitBraces_append hsplit)
        simp only [Prod.mk.injEq, Except.ok.injEq] at h
        obtain ⟨_, rfl⟩ := h
        simp [size] at hlen hle ⊢
        omega
    · simp at h

instance : TokenSource Stream where
  next := next
  capture := capture
  size := size
  next_size_lt := next_size_lt
  capture_size_lt := capture_size_lt

end Stream

end Kfx
