import Kfx.Proofs.Source.Position

/-!
# What stands between tokens

There are blanks, comments to the end of the line, and block comments, which do not nest.
-/
namespace Kfx.Trivia

/-- Blanks between tokens are the four plain ones. -/
def isBlank (c : Char) : Bool :=
  c = ' ' || c = '\t' || c = '\r' || c = '\n'

/-- What the reader is inside of. A block comment remembers where it was opened. -/
inductive Mode
  | code
  | line
  | block (opened : Pos)
  deriving DecidableEq

/-- Where skipping stops: before a character that belongs to a token (or at the end), or at the
end inside a block comment. -/
inductive Skipped
  | upTo (pos : Pos) (rest : List Char)
  | openComment (opened finish : Pos)
  deriving DecidableEq

def skip : Mode → Pos → List Char → Skipped
  | .code, p, [] => .upTo p []
  | .line, p, [] => .upTo p []
  | .block opened, p, [] => .openComment opened p
  | .code, p, '/' :: '/' :: r => skip .line ((p.next '/').next '/') r
  | .code, p, '/' :: '*' :: r => skip (.block p) ((p.next '/').next '*') r
  | .code, p, c :: r => if isBlank c then skip .code (p.next c) r else .upTo p (c :: r)
  | .line, p, c :: r =>
    if c = '\n' then skip .code (p.next c) r else skip .line (p.next c) r
  | .block _, p, '*' :: '/' :: r => skip .code ((p.next '*').next '/') r
  | .block opened, p, c :: r => skip (.block opened) (p.next c) r

/-- Skipping never adds input. -/
theorem skip_length_le {m : Mode} {p q : Pos} {cs rest : List Char}
    (h : skip m p cs = .upTo q rest) : rest.length ≤ cs.length := by
  fun_induction skip m p cs with
  | case1 => simp at h; simp [← h.2]
  | case2 => simp at h; simp [← h.2]
  | case3 => simp at h
  | case4 p r ih => have := ih h; simp; omega
  | case5 p r ih => have := ih h; simp; omega
  | case6 p c r _ _ _ ih => have := ih h; simp; omega
  | case7 p c r => simp at h; simp [← h.2]
  | case8 p r ih => have := ih h; simp; omega
  | case9 p c r _ ih => have := ih h; simp; omega
  | case10 _ p r ih => have := ih h; simp; omega
  | case11 _ p c r _ ih => have := ih h; simp; omega

end Kfx.Trivia
