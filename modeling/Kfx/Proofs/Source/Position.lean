import Mathlib.Data.List.Induction
import Kfx.Source.Position

/-!
# The place behind a text

Counted character by character, and said of the text as a whole: its line feeds give the line, and
the characters behind the last of them the column.
-/
namespace Kfx.Pos

/-- The place after the character `c` that stands at `p`. -/
def next (p : Pos) (c : Char) : Pos :=
  if c = '\n' then ⟨p.line + 1, 1⟩ else ⟨p.line, p.column + 1⟩

/-- The place after the text `cs` that starts at `p`. -/
def after (p : Pos) (cs : List Char) : Pos :=
  cs.foldl next p

@[simp] theorem after_nil (p : Pos) : p.after [] = p := rfl

@[simp] theorem after_cons (p : Pos) (c : Char) (cs : List Char) :
    p.after (c :: cs) = (p.next c).after cs := rfl

@[simp] theorem after_append (p : Pos) (cs ds : List Char) :
    p.after (cs ++ ds) = (p.after cs).after ds := by
  simp [after]

/-- The place behind the text `front`, which starts at the first place. -/
def behind (front : List Char) : Pos :=
  ⟨1 + front.count '\n', 1 + (front.reverse.takeWhile (· ≠ '\n')).length⟩

/-- Counting character by character comes to the same. -/
theorem after_start (front : List Char) : start.after front = behind front := by
  induction front using List.reverseRecOn with
  | nil => rfl
  | append_singleton init c ih =>
    rw [after_append, ih, after_cons, after_nil]
    unfold behind next
    by_cases hc : c = '\n'
    · simp [hc]
      omega
    · simp [hc]
      omega

theorem line_behind_le (front : List Char) : (behind front).line ≤ 1 + front.length := by
  have hcount : front.count '\n' ≤ front.length := List.count_le_length
  simp only [behind]
  omega

theorem column_behind_le (front : List Char) : (behind front).column ≤ 1 + front.length := by
  have htail : (front.reverse.takeWhile (· ≠ '\n')).length ≤ front.reverse.length :=
    (List.takeWhile_prefix _).length_le
  rw [List.length_reverse] at htail
  simp only [behind]
  omega

end Kfx.Pos
