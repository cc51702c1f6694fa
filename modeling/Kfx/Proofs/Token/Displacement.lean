import Kfx.Grammar.Error
import Kfx.Proofs.Token.Stream

/-!
# The same text some lines further down

Nothing that is read from it changes but places, and each of them by as many lines; columns stay.
-/
namespace Kfx

namespace Pos

/-- The place `k` lines below. -/
def down (k : Nat) (p : Pos) : Pos :=
  ⟨p.line + k, p.column⟩

@[simp] theorem next_down (k : Nat) (p : Pos) (c : Char) :
    (p.down k).next c = (p.next c).down k := by
  unfold next down
  split <;> simp [Nat.add_right_comm]

@[simp] theorem after_down (k : Nat) (p : Pos) (cs : List Char) :
    (p.down k).after cs = (p.after cs).down k := by
  induction cs generalizing p with
  | nil => rfl
  | cons c cs ih => simp [ih]

/-- A text moves the line by its line feeds. -/
theorem line_after (p : Pos) (cs : List Char) : (p.after cs).line = p.line + cs.count '\n' := by
  induction cs generalizing p with
  | nil => rfl
  | cons c cs ih =>
    rw [after_cons, ih]
    unfold next
    split
    · next hc =>
      simp [hc]
      omega
    · next hc => simp [hc]

end Pos

def Token.down (k : Nat) (t : Token) : Token := ⟨t.lexeme, t.pos.down k⟩

def Capture.down (k : Nat) (b : Capture) : Capture := ⟨b.text, b.pos.down k⟩

def LexError.down (k : Nat) (e : LexError) : LexError := ⟨e.fault, e.pos.down k⟩

/-- The same error with its place some lines below. -/
def ParseError.down (k : Nat) : ParseError → ParseError
  | lex e => lex (e.down k)
  | unexpected expected found => unexpected expected (found.down k)
  | notKeyword keyword found => notKeyword keyword (found.down k)
  | unknownWord context word pos => unknownWord context word (pos.down k)
  | badValue what value pos => badValue what value (pos.down k)
  | negativeLength value pos => negativeLength value (pos.down k)
  | openArray found => openArray (found.down k)
  | badCount what found => badCount what (found.down k)
  | duplicateLink what pass pos => duplicateLink what pass (pos.down k)
  | tooDeep limit pos => tooDeep limit (pos.down k)

namespace Trivia

def Mode.down (k : Nat) : Mode → Mode
  | code => code
  | line => line
  | block opened => block (opened.down k)

def Skipped.down (k : Nat) : Skipped → Skipped
  | upTo pos rest => upTo (pos.down k) rest
  | openComment opened finish => openComment (opened.down k) (finish.down k)

theorem skip_down (k : Nat) (m : Mode) (p : Pos) (cs : List Char) :
    skip (m.down k) (p.down k) cs = (skip m p cs).down k := by
  fun_induction skip m p cs <;> simp_all [skip, Mode.down, Skipped.down]

end Trivia

namespace Scan

/-- Of what a scan finds, only an error has a place. -/
theorem scan_down (k : Nat) (p : Pos) (cs : List Char) :
    scan (p.down k) cs =
      ⟨(scan p cs).found.mapError (LexError.down k), (scan p cs).taken, (scan p cs).rest⟩ := by
  unfold scan
  split
  · rfl
  · split
    · rfl
    · split
      · dsimp only
        split <;> rfl
      · split
        · split
          · rw [Pos.next_down]
            rfl
          · split <;> rfl
        · split
          · rfl
          · split <;> rfl

end Scan

namespace Stream

def down (k : Nat) (s : Stream) : Stream := { s with pos := s.pos.down k }

theorem next_down (k : Nat) (s : Stream) :
    (s.down k).next =
      ((s.next.1.map (Token.down k)).mapError (LexError.down k), s.next.2.down k) := by
  obtain ⟨rest, pos, ended⟩ := s
  have hskip : Trivia.skip .code (pos.down k) rest = _ := Trivia.skip_down k .code pos rest
  unfold next
  cases ended with
  | true => rfl
  | false =>
    simp only [down, hskip, Bool.false_eq_true, if_false]
    cases Trivia.skip .code pos rest with
    | openComment opened finish => rfl
    | upTo p cs =>
      simp only [Trivia.Skipped.down, Scan.scan_down, Pos.after_down]
      cases (Scan.scan p cs).found <;> rfl

/-- A block is captured alike some lines below. -/
theorem capture_down (k : Nat) (s : Stream) :
    (s.down k).capture =
      ((s.capture.1.map (Capture.down k)).mapError (LexError.down k), s.capture.2.down k) := by
  obtain ⟨rest, pos, ended⟩ := s
  have hskip : Trivia.skip .code (pos.down k) rest = _ := Trivia.skip_down k .code pos rest
  unfold capture
  simp only [down, hskip]
  cases Trivia.skip .code pos rest with
  | openComment opened finish => rfl
  | upTo p cs =>
    cases cs with
    | nil => rfl
    | cons c r =>
      simp only [Trivia.Skipped.down, Pos.after_down]
      split
      · cases splitBraces 0 r <;> rfl
      · rfl

end Stream

end Kfx
