import Mathlib.Data.List.Basic
import Kfx.Text.Lines

/-!
# Lines and blanks

No line holds a line feed, and a line that is written with a line feed behind it is read back
without a carriage return at its end. A blank at the end of a text is of no account to `trim`.
-/
namespace Kfx.Text

def dropReturn (line : List Char) : List Char :=
  if line.getLast? = some '\r' then line.dropLast else line

theorem dropReturn_cons_cons (c d : Char) (line : List Char) :
    dropReturn (c :: d :: line) = c :: dropReturn (d :: line) := by
  rw [dropReturn, dropReturn, List.getLast?_cons_cons, List.dropLast_cons_cons]
  split <;> rfl

/-- Either nothing is dropped, or the line ends with what is dropped. -/
theorem dropReturn_cases (line : List Char) :
    dropReturn line = line ∨ line = dropReturn line ++ ['\r'] := by
  rw [dropReturn]
  split
  · rename_i hlast
    exact Or.inr (List.dropLast_append_getLast? _ hlast).symm
  · exact Or.inl rfl

/-- A character that ends no line belongs to the line that follows it. -/
theorem lines_cons {c : Char} {cs : List Char} (hfeed : c ≠ '\n')
    (hreturn : ∀ rest, c = '\r' → cs ≠ '\n' :: rest) :
    lines (c :: cs) = (c :: (lines cs).headD []) :: (lines cs).tail := by
  rw [lines]
  · cases lines cs <;> rfl
  · exact hfeed
  · exact hreturn

/-- No line holds a line feed. -/
theorem newline_notMem_of_mem_lines {cs line : List Char} (h : line ∈ lines cs) : '\n' ∉ line := by
  induction cs using lines.induct generalizing line with
  | case1 => cases h
  | case2 cs ih =>
    rw [lines] at h
    rcases List.mem_cons.mp h with rfl | h
    · exact List.not_mem_nil
    · exact ih h
  | case3 cs ih =>
    rw [lines] at h
    rcases List.mem_cons.mp h with rfl | h
    · exact List.not_mem_nil
    · exact ih h
  | case4 c cs hfeed hreturn hnone ih =>
    rw [lines_cons hfeed hreturn, hnone] at h
    cases List.mem_singleton.mp h
    exact fun hmem => hfeed (List.mem_singleton.mp hmem).symm
  | case5 c cs hfeed hreturn first rest hrest ih =>
    rw [lines_cons hfeed hreturn, hrest] at h
    rw [hrest] at ih
    rcases List.mem_cons.mp h with rfl | h
    · intro hmem
      rcases List.mem_cons.mp hmem with hc | hmem
      · exact hfeed hc.symm
      · exact ih List.mem_cons_self hmem
    · exact ih (List.mem_cons_of_mem _ h)

/-- A line with a line feed behind it is read back, less one carriage return. -/
theorem lines_append_newline {line : List Char} (hline : '\n' ∉ line) (rest : List Char) :
    lines (line ++ '\n' :: rest) = dropReturn line :: lines rest := by
  induction line with
  | nil => rfl
  | cons c line ih =>
    rw [List.mem_cons, not_or] at hline
    obtain ⟨hc, hline⟩ := hline
    cases line with
    | nil =>
      by_cases hreturn : c = '\r'
      · subst hreturn
        rfl
      · rw [List.cons_append, lines_cons (Ne.symm hc) fun _ h => absurd h hreturn]
        simp [lines, dropReturn, hreturn]
    | cons d line =>
      have hd : ∀ more, c = '\r' → d :: line ++ '\n' :: rest ≠ '\n' :: more := by
        intro more _ heq
        exact hline ((List.cons.inj heq).1 ▸ List.mem_cons_self)
      rw [List.cons_append, lines_cons (Ne.symm hc) hd, ih hline, dropReturn_cons_cons]
      rfl

theorem dropBlanks_append_blank {b : Char} (hb : isBlank b) (cs : List Char) :
    dropBlanks (cs ++ [b]) = if dropBlanks cs = [] then [] else dropBlanks cs ++ [b] := by
  rw [dropBlanks, dropBlanks, List.dropWhile_append]
  simp [List.isEmpty_iff, hb]

theorem trim_append_blank {b : Char} (hb : isBlank b) (cs : List Char) :
    trim (cs ++ [b]) = trim cs := by
  rw [trim, trim, dropBlanks_append_blank hb]
  split
  · rename_i hnone
    rw [hnone]
  · rw [List.reverse_append, List.reverse_singleton, List.singleton_append]
    exact congrArg List.reverse (List.dropWhile_cons_of_pos hb)

end Kfx.Text
