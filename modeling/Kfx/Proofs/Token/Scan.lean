import Kfx.Token.Basic
import Kfx.Proofs.Source.Position

/-!
# Lexemes at the front of a text

Reading one lexeme from the front of a text. A scan says what it found, which characters it took and
what is left; `taken ++ rest` is always the whole input (`scan_split`).
-/
namespace Kfx

def Symbol.ofChar? (c : Char) : Option Symbol :=
  all.find? fun s => s.char == c

namespace Scan

def isWordStart (c : Char) : Bool :=
  c.isAlpha || c = '_'

def isWordChar (c : Char) : Bool :=
  c.isAlphanum || c = '_'

/-- A quoted text read from behind its opening quote. Only a closed one took its closing quote;
an open one stops before the line feed or the end that cut it off. -/
structure Quotation where
  raw : List Char
  rest : List Char
  closed : Bool
  deriving DecidableEq

/-- Puts characters in front of a quoted text. -/
def Quotation.push (q : Quotation) (cs : List Char) : Quotation :=
  { q with raw := cs ++ q.raw }

/-- Reads up to the first quote that no backslash stands before. A backslash takes the character
after it along, but not a line feed. -/
def quotation : List Char → Quotation
  | [] => ⟨[], [], false⟩
  | '"' :: r => ⟨[], r, true⟩
  | '\n' :: r => ⟨[], '\n' :: r, false⟩
  | ['\\'] => ⟨['\\'], [], false⟩
  | '\\' :: '\n' :: r => ⟨['\\'], '\n' :: r, false⟩
  | '\\' :: c :: r => (quotation r).push ['\\', c]
  | c :: r => (quotation r).push [c]

/-- What a quoted text took from the input, its closing quote included. -/
def Quotation.taken (q : Quotation) : List Char :=
  if q.closed then q.raw ++ ['"'] else q.raw

theorem quotation_split (cs : List Char) :
    (quotation cs).taken ++ (quotation cs).rest = cs := by
  fun_induction quotation cs with
  | case1 => rfl
  | case2 => rfl
  | case3 => rfl
  | case4 => rfl
  | case5 => rfl
  | case6 c r _ ih =>
    cases hq : (quotation r).closed <;> simp_all [Quotation.taken, Quotation.push]
  | case7 c r _ _ _ _ _ ih =>
    cases hq : (quotation r).closed <;> simp_all [Quotation.taken, Quotation.push]

/-- Reads the digits of a number and, if a point follows, the digits behind it. -/
def literal (negative : Bool) (cs : List Char) : Number.Literal × List Char :=
  let whole := cs.takeWhile Char.isDigit
  match cs.dropWhile Char.isDigit with
  | '.' :: r => (⟨negative, whole, some (r.takeWhile Char.isDigit)⟩, r.dropWhile Char.isDigit)
  | r => (⟨negative, whole, none⟩, r)

theorem literal_split (negative : Bool) (cs : List Char) :
    (literal negative cs).1.text ++ (literal negative cs).2 =
      (if negative then ['-'] else []) ++ cs := by
  unfold literal
  have hcs : cs.takeWhile Char.isDigit ++ cs.dropWhile Char.isDigit = cs :=
    List.takeWhile_append_dropWhile
  simp only
  split
  · next r hr =>
    rw [hr] at hcs
    have hds : r.takeWhile Char.isDigit ++ r.dropWhile Char.isDigit = r :=
      List.takeWhile_append_dropWhile
    simp [Number.Literal.text, hds, hcs]
  · simp [Number.Literal.text, hcs]

end Scan

/-- What was found at the front of a text. -/
structure Scan where
  found : Except LexError Lexeme
  taken : List Char
  rest : List Char

namespace Scan

/-- The number whose digits start `cs`; a minus stands before `cs`. -/
def number (negative : Bool) (cs : List Char) : Scan :=
  let (l, r) := literal negative cs
  ⟨.ok (.number l), l.text, r⟩

/-- Reads the lexeme that starts at `p`. A minus must be followed by a digit. -/
def scan (p : Pos) : List Char → Scan
  | [] => ⟨.ok .endOfInput, [], []⟩
  | c :: r =>
    match Symbol.ofChar? c with
    | some s => ⟨.ok (.symbol s), [c], r⟩
    | none =>
      if c = '"' then
        let q := quotation r
        ⟨if q.closed then .ok (.quoted (String.ofList q.raw)) else .error ⟨.openText, p⟩,
          c :: q.taken, q.rest⟩
      else if c = '-' then
        match r with
        | [] => ⟨.error ⟨.endOfInput, p.next c⟩, [c], []⟩
        | d :: _ => if d.isDigit then number true r else ⟨.error ⟨.stray c, p⟩, [c], r⟩
      else if c.isDigit then number false (c :: r)
      else if isWordStart c then
        ⟨.ok (.word (String.ofList (c :: r.takeWhile isWordChar))),
          c :: r.takeWhile isWordChar, r.dropWhile isWordChar⟩
      else ⟨.error ⟨.stray c, p⟩, [], c :: r⟩

theorem number_split (negative : Bool) (cs : List Char) :
    (number negative cs).taken ++ (number negative cs).rest =
      (if negative then ['-'] else []) ++ cs :=
  literal_split negative cs

/-- Scanning loses and invents nothing. -/
theorem scan_split (p : Pos) (cs : List Char) : (scan p cs).taken ++ (scan p cs).rest = cs := by
  unfold scan
  split
  · rfl
  · next c r =>
    split
    · rfl
    · split
      · simp [quotation_split]
      · split
        · next hc =>
          split
          · rfl
          · split
            · simp [number_split, hc]
            · rfl
        · split
          · simp [number_split]
          · split
            · simp
            · rfl

theorem literal_taken_ne_nil {negative : Bool} {c : Char} {r : List Char}
    (h : c.isDigit = true) : (literal negative (c :: r)).1.text ≠ [] := by
  unfold literal
  simp only
  split <;> simp [Number.Literal.text, h]

/-- Every lexeme but the end of input takes a character. -/
theorem taken_ne_nil {p : Pos} {cs : List Char} {l : Lexeme} (h : (scan p cs).found = .ok l)
    (hl : l ≠ .endOfInput) : (scan p cs).taken ≠ [] := by
  revert h
  unfold scan
  split
  · intro h; simp at h; exact absurd h.symm hl
  · next c r =>
    split
    · simp
    · split
      · simp
      · split
        · split
          · simp
          · split
            · next hd => intro _; exact literal_taken_ne_nil hd
            · simp
        · split
          · next hd => intro _; exact literal_taken_ne_nil hd
          · split <;> simp

end Scan

end Kfx
