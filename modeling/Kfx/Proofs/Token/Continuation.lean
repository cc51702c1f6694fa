import Kfx.Proofs.Token.Stream

/-!
# A text that goes on

The text goes on with a line feed and more. No token reaches over a line feed, so every token and
every block of raw text is read as before; only the end is not there any more, and reading goes on
with the text behind the line feed.
-/
namespace Kfx

section

variable {α : Type} {p : α → Bool} {a : α}

theorem takeWhile_append_stop (h : p a = false) (xs ys : List α) :
    (xs ++ a :: ys).takeWhile p = xs.takeWhile p := by
  induction xs with
  | nil => simp [h]
  | cons x xs ih => simp only [List.cons_append, List.takeWhile_cons, ih]

theorem dropWhile_append_stop (h : p a = false) (xs ys : List α) :
    (xs ++ a :: ys).dropWhile p = xs.dropWhile p ++ a :: ys := by
  induction xs with
  | nil => simp [h]
  | cons x xs ih =>
    simp only [List.cons_append, List.dropWhile_cons, ih]
    split <;> rfl

end

/-- A character that is no line feed stands before the line feed. -/
theorem exists_cons_of_append {d : Char} {r more rest : List Char}
    (h : r ++ '\n' :: more = d :: rest) (hd : d ≠ '\n') : ∃ r', r = d :: r' := by
  cases r with
  | nil => exact absurd (List.cons.inj h).1.symm hd
  | cons c r =>
    obtain ⟨rfl, _⟩ := List.cons.inj h
    exact ⟨r, rfl⟩

namespace Trivia

/-- Where skipping stops before a character it stops as before; where it stopped at the end it goes
on behind the line feed. -/
theorem skip_append {m : Mode} {p q : Pos} {cs rest : List Char} (h : skip m p cs = .upTo q rest)
    (more : List Char) : skip m p (cs ++ '\n' :: more) =
      if rest = [] then skip .code (q.next '\n') more else .upTo q (rest ++ '\n' :: more) := by
  fun_induction skip m p cs with
  | case1 p | case2 p =>
    cases h
    simp [skip, isBlank]
  | case3 => cases h
  | case4 p r ih | case5 p r ih => simpa [skip] using ih h
  -- A slash or a star at the end of the text opens or closes no comment with the line feed.
  | case6 p c r hline hblock hblank ih =>
    rw [List.cons_append, skip.eq_6, if_pos hblank, ih h]
    · rintro r₁ hc hr
      obtain ⟨r₂, hr₂⟩ := exists_cons_of_append hr (by decide)
      exact hline r₂ hc hr₂
    · rintro r₁ hc hr
      obtain ⟨r₂, hr₂⟩ := exists_cons_of_append hr (by decide)
      exact hblock r₂ hc hr₂
  | case7 p c r hline hblock hblank =>
    cases h
    rw [List.cons_append, skip.eq_6, if_neg hblank]
    · rfl
    · rintro r₁ hc hr
      obtain ⟨r₂, hr₂⟩ := exists_cons_of_append hr (by decide)
      exact hline r₂ hc hr₂
    · rintro r₁ hc hr
      obtain ⟨r₂, hr₂⟩ := exists_cons_of_append hr (by decide)
      exact hblock r₂ hc hr₂
  | case8 p r ih => simpa [skip] using ih h
  | case9 p c r hc ih =>
    rw [List.cons_append, skip.eq_7, if_neg hc, ih h]
  | case10 _ p r ih => simpa [skip] using ih h
  | case11 _ p c r hclose ih =>
    rw [List.cons_append, skip.eq_9, ih h]
    rintro r₁ hc hr
    obtain ⟨r₂, hr₂⟩ := exists_cons_of_append hr (by decide)
    exact hclose r₂ hc hr₂

/-- Skipping takes characters off the front, and its place is behind them. -/
theorem skip_split {m : Mode} {p q : Pos} {cs rest : List Char} (h : skip m p cs = .upTo q rest) :
    ∃ taken, cs = taken ++ rest ∧ q = p.after taken := by
  fun_induction skip m p cs with
  | case1 p | case2 p =>
    cases h
    exact ⟨[], rfl, rfl⟩
  | case3 => cases h
  | case7 p c r _ _ _ =>
    cases h
    exact ⟨[], rfl, rfl⟩
  | case4 p r ih | case5 p r ih | case10 _ p r ih =>
    obtain ⟨taken, rfl, rfl⟩ := ih h
    exact ⟨_ :: _ :: taken, rfl, rfl⟩
  | case6 p c r _ _ _ ih | case9 p c r _ ih | case11 _ p c r _ ih =>
    obtain ⟨taken, rfl, rfl⟩ := ih h
    exact ⟨c :: taken, rfl, rfl⟩
  | case8 p r ih =>
    obtain ⟨taken, rfl, rfl⟩ := ih h
    exact ⟨_ :: taken, rfl, rfl⟩

end Trivia

namespace Scan

/-- A closed quotation does not look at what follows it. -/
theorem quotation_append {cs : List Char} (h : (quotation cs).closed = true) (more : List Char) :
    quotation (cs ++ more) = ⟨(quotation cs).raw, (quotation cs).rest ++ more, true⟩ := by
  fun_induction quotation cs with
  | case1 => cases h
  | case2 r => rfl
  | case3 r => cases h
  | case4 => cases h
  | case5 r => cases h
  | case6 c r hc ih =>
    rw [List.cons_append, List.cons_append, quotation.eq_6 c _ hc, ih h]
    rfl
  | case7 c r hquote hfeed hlast _ hescape ih =>
    have hslash : c ≠ '\\' := by
      intro hc
      cases r with
      | nil => exact hlast hc rfl
      | cons d r => exact hescape d r hc rfl
    rw [List.cons_append, quotation.eq_7 c _ hquote hfeed (fun hc => absurd hc hslash)
      (fun _ hc => absurd hc hslash) (fun _ _ hc => absurd hc hslash), ih h]
    rfl

theorem literal_append (negative : Bool) (cs more : List Char) :
    literal negative (cs ++ '\n' :: more) =
      ((literal negative cs).1, (literal negative cs).2 ++ '\n' :: more) := by
  have hdigit : Char.isDigit '\n' = false := by decide
  unfold literal
  simp only [takeWhile_append_stop hdigit, dropWhile_append_stop hdigit]
  cases cs.dropWhile Char.isDigit with
  | nil => simp
  | cons c r =>
    by_cases hc : c = '.'
    · subst hc
      simp [takeWhile_append_stop hdigit, dropWhile_append_stop hdigit]
    · simp [hc]

theorem number_append (negative : Bool) (cs more : List Char) :
    number negative (cs ++ '\n' :: more) =
      ⟨(number negative cs).found, (number negative cs).taken,
        (number negative cs).rest ++ '\n' :: more⟩ := by
  unfold number
  rw [literal_append]

/-- A lexeme before a line feed is found as before. -/
theorem scan_append {p : Pos} {c : Char} {r : List Char} {l : Lexeme}
    (h : (scan p (c :: r)).found = .ok l) (more : List Char) :
    scan p (c :: (r ++ '\n' :: more)) =
      ⟨.ok l, (scan p (c :: r)).taken, (scan p (c :: r)).rest ++ '\n' :: more⟩ := by
  have hword : isWordChar '\n' = false := by decide
  rw [← h]
  unfold scan at h ⊢
  dsimp only at h ⊢
  split
  · rfl
  · next hsymbol =>
    rw [hsymbol] at h
    dsimp only at h
    split
    · next hquote =>
      rw [if_pos hquote] at h
      dsimp only at h
      split at h
      · next hclosed =>
        rw [quotation_append hclosed]
        simp [hclosed, Quotation.taken]
      · cases h
    · next hquote =>
      rw [if_neg hquote] at h
      split
      · next hminus =>
        rw [if_pos hminus] at h
        cases r with
        | nil => cases h
        | cons d r =>
          rw [List.cons_append]
          dsimp only at h ⊢
          split
          · exact number_append true (d :: r) more
          · next hdigit =>
            rw [if_neg hdigit] at h
            cases h
      · next hminus =>
        rw [if_neg hminus] at h
        split
        · exact number_append false (c :: r) more
        · next hdigit =>
          rw [if_neg hdigit] at h
          split
          · rw [takeWhile_append_stop hword, dropWhile_append_stop hword]
          · next hstart =>
            rw [if_neg hstart] at h
            cases h

end Scan

namespace Stream

/-- Nor does a block that is closed. -/
theorem splitBraces_append_more {depth : Nat} {cs inner rest : List Char}
    (h : splitBraces depth cs = some (inner, rest)) (more : List Char) :
    splitBraces depth (cs ++ more) = some (inner, rest ++ more) := by
  fun_induction splitBraces depth cs generalizing inner rest with
  | case1 => cases h
  | case2 r =>
    cases h
    simp [splitBraces]
  | case3 r d ih =>
    obtain ⟨⟨inner, rest⟩, hsplit, heq⟩ := Option.map_eq_some_iff.mp h
    cases heq
    simp [splitBraces, ih hsplit]
  | case4 depth r hclose ih =>
    obtain ⟨⟨inner, rest⟩, hsplit, heq⟩ := Option.map_eq_some_iff.mp h
    cases heq
    simp [splitBraces, ih hsplit]
  | case5 depth c r hclose hopen ih =>
    obtain ⟨⟨inner, rest⟩, hsplit, heq⟩ := Option.map_eq_some_iff.mp h
    cases heq
    simp [splitBraces, hclose, hopen, ih hsplit]

/-- The same stream with more text behind a line feed. -/
def continued (more : List Char) (s : Stream) : Stream := { s with rest := s.rest ++ '\n' :: more }

variable {s s' : Stream} {l : Lexeme} {pos : Pos}

/-- What a token was made from: the text behind the trivia before it. -/
theorem next_eq_ok : s.next = (.ok ⟨l, pos⟩, s') ↔
    s.ended = false ∧ ∃ cs, Trivia.skip .code s.pos s.rest = .upTo pos cs ∧
      (Scan.scan pos cs).found = .ok l ∧
        s' = ⟨(Scan.scan pos cs).rest, pos.after (Scan.scan pos cs).taken, l == .endOfInput⟩ := by
  unfold next
  constructor
  · intro h
    split at h
    · cases h
    · next hended =>
      split at h
      · cases h
      · next p cs hskip =>
        dsimp only at h
        split at h
        · cases h
        · next hfound =>
          cases h
          exact ⟨by simpa using hended, cs, hskip, hfound, rfl⟩
  · rintro ⟨hended, cs, hskip, hfound, rfl⟩
    simp [hended, hskip, hfound]

/-- Only the end of a text is no lexeme of its characters. -/
theorem eq_nil_of_endOfInput {p : Pos} {cs : List Char}
    (h : (Scan.scan p cs).found = .ok .endOfInput) : cs = [] := by
  cases cs with
  | nil => rfl
  | cons c r =>
    unfold Scan.scan at h
    dsimp only at h
    split at h
    · cases h
    · split at h
      · dsimp only at h
        split at h <;> cases h
      · split at h
        · split at h
          · cases h
          · split at h <;> cases h
        · split at h
          · cases h
          · split at h <;> cases h

theorem next_continued (h : s.next = (.ok ⟨l, pos⟩, s')) (hl : l ≠ .endOfInput)
    (more : List Char) : (s.continued more).next = (.ok ⟨l, pos⟩, s'.continued more) := by
  obtain ⟨hended, cs, hskip, hfound, rfl⟩ := next_eq_ok.mp h
  cases cs with
  | nil =>
    cases hfound
    exact absurd rfl hl
  | cons c r =>
    have hscan := Scan.scan_append hfound more
    refine next_eq_ok.mpr ⟨hended, c :: (r ++ '\n' :: more), ?_, ?_, ?_⟩
    · exact Trivia.skip_append hskip more
    · rw [hscan]
    · rw [hscan]
      rfl

/-- Behind the end the text goes on. -/
theorem next_continued_of_end (h : s.next = (.ok ⟨.endOfInput, pos⟩, s')) (more : List Char) :
    (s.continued more).next = next ⟨more, pos.next '\n', false⟩ := by
  obtain ⟨hended, cs, hskip, hfound, rfl⟩ := next_eq_ok.mp h
  cases eq_nil_of_endOfInput hfound
  have hmore : Trivia.skip .code s.pos (s.rest ++ '\n' :: more) = _ :=
    Trivia.skip_append hskip more
  unfold next
  simp only [continued, hended, hmore]
  rfl

/-- What a block of raw text was made from. -/
theorem capture_eq_ok {text : String} : s.capture = (.ok ⟨text, pos⟩, s') ↔
    ∃ r inner rest, Trivia.skip .code s.pos s.rest = .upTo pos ('\x7b' :: r) ∧
      splitBraces 0 r = some (inner, rest) ∧ text = String.ofList inner ∧
        s' = ⟨rest, pos.after ('\x7b' :: inner ++ ['\x7d']), s.ended⟩ := by
  unfold capture
  constructor
  · intro h
    split at h
    · cases h
    · cases h
    · next p c r hskip =>
      split at h
      · next hc =>
        subst hc
        split at h
        · cases h
        · next inner rest hsplit =>
          cases h
          exact ⟨r, inner, rest, hskip, hsplit, rfl, rfl⟩
      · cases h
  · rintro ⟨r, inner, rest, hskip, hsplit, rfl, rfl⟩
    simp [hskip, hsplit]

theorem capture_continued {text : String} (h : s.capture = (.ok ⟨text, pos⟩, s'))
    (more : List Char) : (s.continued more).capture = (.ok ⟨text, pos⟩, s'.continued more) := by
  obtain ⟨r, inner, rest, hskip, hsplit, rfl, rfl⟩ := capture_eq_ok.mp h
  refine capture_eq_ok.mpr ⟨r ++ '\n' :: more, inner, rest ++ '\n' :: more, ?_, ?_, rfl, rfl⟩
  · exact Trivia.skip_append hskip more
  · exact splitBraces_append_more hsplit _

/-- The stream stands at its place in a text. -/
def Within (text : List Char) (s : Stream) : Prop :=
  ∃ taken, text = taken ++ s.rest ∧ s.pos = Pos.start.after taken

variable {text : List Char}

theorem within_ofString (source : String) : (ofString source).Within source.toList :=
  ⟨[], rfl, rfl⟩

theorem Within.next (hs : s.Within text) (h : s.next = (.ok ⟨l, pos⟩, s')) : s'.Within text := by
  obtain ⟨front, rfl, hpos⟩ := hs
  obtain ⟨_, cs, hskip, _, rfl⟩ := next_eq_ok.mp h
  obtain ⟨trivia, hrest, rfl⟩ := Trivia.skip_split hskip
  refine ⟨front ++ trivia ++ (Scan.scan (s.pos.after trivia) cs).taken, ?_, ?_⟩
  · rw [hrest, List.append_assoc, List.append_assoc, Scan.scan_split]
  · simp [hpos]

theorem Within.capture {inner : String} (hs : s.Within text)
    (h : s.capture = (.ok ⟨inner, pos⟩, s')) : s'.Within text := by
  obtain ⟨front, rfl, hpos⟩ := hs
  obtain ⟨r, inner, rest, hskip, hsplit, _, rfl⟩ := capture_eq_ok.mp h
  obtain ⟨trivia, hrest, rfl⟩ := Trivia.skip_split hskip
  refine ⟨front ++ trivia ++ ('\x7b' :: inner ++ ['\x7d']), ?_, ?_⟩
  · rw [hrest, splitBraces_append hsplit]
    simp
  · simp [hpos]

/-- The end is reported behind the whole text. -/
theorem Within.pos_end (hs : s.Within text) (h : s.next = (.ok ⟨.endOfInput, pos⟩, s')) :
    pos = Pos.start.after text := by
  obtain ⟨front, rfl, hpos⟩ := hs
  obtain ⟨_, cs, hskip, hfound, _⟩ := next_eq_ok.mp h
  cases eq_nil_of_endOfInput hfound
  obtain ⟨trivia, hrest, rfl⟩ := Trivia.skip_split hskip
  simp [hrest, hpos]

end Stream

end Kfx
