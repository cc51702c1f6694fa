import Kfx.Proofs.Token.Simulation
import Kfx.Proofs.Token.Tiling

/-!
# Where the lexer stands

After any calls at all, in any order, with errors and with returns to an earlier place, the lexer
stands between two characters of its source. Its line and column are those of the text it has left
behind, and what the calls answer is placed in the same way.
-/
namespace Kfx

/-- The place `p` of a text, with `back` the text from there on. -/
def StandsAt (text : List Char) (p : Pos) (back : List Char) : Prop :=
  ∃ front, text = front ++ back ∧ p = Pos.behind front

def IsPlace (text : List Char) (p : Pos) : Prop :=
  ∃ back, StandsAt text p back

/-- An error is reported at a place of the text, and a character that is reported stands there. It
is never that a character was cut. -/
def LexError.PlacedIn (text : List Char) (e : LexError) : Prop :=
  e.fault ≠ .cut ∧ ∃ back, StandsAt text e.pos back ∧ ∀ c, e.fault = .stray c → back.head? = some c

/-- A token is cut out of a text, at the place it says and up to `rest`. -/
def Token.CutFrom (text rest : List Char) (t : Token) : Prop :=
  ∃ front taken, text = front ++ taken ++ rest ∧ t.pos = Pos.behind front ∧
    (t.lexeme.Spells taken ∨ t.lexeme = .endOfInput ∧ taken = [])

/-- A block is cut out of a text, at the place it says and up to `rest`. -/
def Capture.CutFrom (text rest : List Char) (b : Capture) : Prop :=
  ∃ front inner, text = front ++ '\x7b' :: inner ++ '\x7d' :: rest ∧ b.pos = Pos.behind front ∧
    b.text = String.ofList inner

variable {text : List Char} {p : Pos}

theorem StandsAt.isPlace {back : List Char} (h : StandsAt text p back) : IsPlace text p :=
  ⟨back, h⟩

/-- Further on by some characters. -/
theorem StandsAt.after {taken back : List Char} (h : StandsAt text p (taken ++ back)) :
    StandsAt text (p.after taken) back := by
  obtain ⟨front, htext, rfl⟩ := h
  refine ⟨front ++ taken, ?_, ?_⟩
  · rw [htext, List.append_assoc]
  · rw [← Pos.after_start, ← Pos.after_start, Pos.after_append]

theorem StandsAt.next {c : Char} {back : List Char} (h : StandsAt text p (c :: back)) :
    StandsAt text (p.next c) back := by
  have hsingle : StandsAt text p ([c] ++ back) := h
  exact hsingle.after

theorem LexError.placedIn_of_standsAt {fault : LexFault} {back : List Char}
    (h : StandsAt text p back)
    (hfault : fault ≠ .cut ∧ ∀ c, fault = .stray c → back.head? = some c) :
    LexError.PlacedIn text ⟨fault, p⟩ :=
  ⟨hfault.1, back, h, hfault.2⟩

namespace Trivia

/-- A comment remembers a place. -/
def Mode.Placed (text : List Char) : Mode → Prop
  | .block opened => IsPlace text opened
  | _ => True

def Skipped.Placed (text : List Char) : Skipped → Prop
  | .upTo q rest => StandsAt text q rest
  | .openComment opened finish => IsPlace text opened ∧ StandsAt text finish []

theorem skip_placed {m : Mode} {cs : List Char} (hm : m.Placed text) (h : StandsAt text p cs) :
    (skip m p cs).Placed text := by
  fun_induction skip m p cs with
  | case1 p | case2 p => exact h
  | case3 p opened => exact ⟨hm, h⟩
  | case4 p r ih => exact ih trivial h.next.next
  | case5 p r ih => exact ih h.isPlace h.next.next
  | case6 p c r _ _ _ ih => exact ih trivial h.next
  | case7 p c r _ _ _ => exact h
  | case8 p r ih => exact ih trivial h.next
  | case9 p c r _ ih => exact ih trivial h.next
  | case10 _ p r ih => exact ih trivial h.next.next
  | case11 _ p c r _ ih => exact ih hm h.next

end Trivia

/-- A scan that finds no lexeme says so at its start or, behind a lone minus, at the end. -/
theorem Scan.scan_error_placed {cs : List Char} {e : LexError} (h : StandsAt text p cs)
    (herror : (scan p cs).found = .error e) : e.PlacedIn text := by
  cases cs with
  | nil => cases herror
  | cons c r =>
    unfold scan at herror
    dsimp only at herror
    split at herror
    · cases herror
    · split at herror
      · dsimp only at herror
        split at herror
        · cases herror
        · cases herror
          exact LexError.placedIn_of_standsAt h (by simp)
      · split at herror
        · split at herror
          · cases herror
            exact LexError.placedIn_of_standsAt h.next (by simp)
          · split at herror
            · cases herror
            · cases herror
              exact LexError.placedIn_of_standsAt h (by simp)
        · split at herror
          · cases herror
          · split at herror
            · cases herror
            · cases herror
              exact LexError.placedIn_of_standsAt h (by simp)

namespace Stream

variable {s s' : Stream}

theorem within_iff_standsAt : s.Within text ↔ StandsAt text s.pos s.rest := by
  constructor
  · rintro ⟨front, htext, hpos⟩
    exact ⟨front, htext, hpos.trans (Pos.after_start front)⟩
  · rintro ⟨front, htext, hpos⟩
    exact ⟨front, htext, hpos.trans (Pos.after_start front).symm⟩

/-- A call that fails leaves the stream at a place too, and its error is placed. -/
theorem Within.next_error {e : LexError} (hs : s.Within text) (h : s.next = (.error e, s')) :
    e.PlacedIn text ∧ s'.Within text := by
  rw [within_iff_standsAt] at hs ⊢
  unfold Stream.next at h
  split at h
  · cases h
    exact ⟨LexError.placedIn_of_standsAt hs (by simp), hs⟩
  · have hskip : (Trivia.skip .code s.pos s.rest).Placed text := Trivia.skip_placed trivial hs
    split at h
    · next opened finish hopen =>
      cases h
      rw [hopen] at hskip
      obtain ⟨⟨back, hopened⟩, hfinish⟩ := hskip
      exact ⟨LexError.placedIn_of_standsAt hopened (by simp), hfinish⟩
    · next q cs hupTo =>
      rw [hupTo] at hskip
      dsimp only at h
      split at h
      · next hfound =>
        cases h
        refine ⟨Scan.scan_error_placed hskip hfound, ?_⟩
        have hsplit : StandsAt text q ((Scan.scan q cs).taken ++ (Scan.scan q cs).rest) := by
          rw [Scan.scan_split]
          exact hskip
        exact hsplit.after
      · cases h

/-- A block that cannot be captured is reported at a place of the text. -/
theorem Within.capture_error {e : LexError} (hs : s.Within text)
    (h : s.capture = (.error e, s')) : e.PlacedIn text ∧ s'.Within text := by
  rw [within_iff_standsAt] at hs ⊢
  have hskip : (Trivia.skip .code s.pos s.rest).Placed text := Trivia.skip_placed trivial hs
  unfold Stream.capture at h
  split at h
  · next opened finish hopen =>
    cases h
    rw [hopen] at hskip
    obtain ⟨⟨back, hopened⟩, hfinish⟩ := hskip
    exact ⟨LexError.placedIn_of_standsAt hopened (by simp), hfinish⟩
  · next q hupTo =>
    cases h
    rw [hupTo] at hskip
    exact ⟨LexError.placedIn_of_standsAt hskip (by simp), hskip⟩
  · next q c r hupTo =>
    rw [hupTo] at hskip
    split at h
    · split at h
      · cases h
        have hend : StandsAt text (q.after (c :: r)) [] := by
          apply StandsAt.after
          rw [List.append_nil]
          exact hskip
        exact ⟨LexError.placedIn_of_standsAt hend (by simp), hend⟩
      · cases h
    · cases h
      exact ⟨LexError.placedIn_of_standsAt hskip (by simp), hskip⟩

theorem Within.cutFrom_next {t : Token} (hs : s.Within text) (h : s.next = (.ok t, s')) :
    t.CutFrom text s'.rest := by
  obtain ⟨front, htext, hpos⟩ := within_iff_standsAt.mp hs
  obtain ⟨l, pos⟩ := t
  by_cases hl : l = .endOfInput
  · subst hl
    obtain ⟨_, rfl, rfl⟩ := next_end_tile hpos h
    exact ⟨front ++ s.rest, [], by simp [htext], rfl, Or.inr ⟨rfl, rfl⟩⟩
  · obtain ⟨w, r, hrest, _, hspells, _, htpos, _⟩ := next_tile hpos h hl
    refine ⟨front ++ w, r, ?_, htpos, Or.inl hspells⟩
    rw [htext, hrest]
    simp only [List.append_assoc]

theorem Within.isPlace_next {t : Token} (hs : s.Within text) (h : s.next = (.ok t, s')) :
    IsPlace text t.pos := by
  obtain ⟨front, taken, htext, hpos, _⟩ := hs.cutFrom_next h
  exact ⟨taken ++ s'.rest, front, by rw [htext, List.append_assoc], hpos⟩

theorem Within.cutFrom_capture {b : Capture} (hs : s.Within text) (h : s.capture = (.ok b, s')) :
    b.CutFrom text s'.rest := by
  obtain ⟨inner, pos⟩ := b
  obtain ⟨r, inner, rest, hskip, hsplit, rfl, rfl⟩ := capture_eq_ok.mp h
  have hplaced : (Trivia.skip .code s.pos s.rest).Placed text :=
    Trivia.skip_placed trivial (within_iff_standsAt.mp hs)
  rw [hskip] at hplaced
  obtain ⟨front, htext, hpos⟩ := hplaced
  refine ⟨front, inner, ?_, hpos, rfl⟩
  rw [htext, splitBraces_append hsplit]
  simp

end Stream

/-- A character has at least one byte. -/
theorem length_le_utf8ByteSize (cs : List Char) : cs.length ≤ (String.ofList cs).utf8ByteSize := by
  induction cs with
  | nil => simp
  | cons c cs ih =>
    have hc : 0 < c.utf8Size := c.utf8Size_pos
    have hsplit : String.ofList (c :: cs) = String.singleton c ++ String.ofList cs := by
      apply String.toList_inj.mp
      simp
    rw [hsplit, String.utf8ByteSize_append, String.utf8ByteSize_singleton, List.length_cons]
    omega

namespace Lexer

variable {source : String} {l l' : Lexer source}

/-- The text `back` is what stands ahead of the lexer. The offset is the number of bytes before it,
and the place is the one where it starts. -/
def StandsBefore (l : Lexer source) (back : List Char) : Prop :=
  ∃ front, source.toList = front ++ back ∧ l.offset = (String.ofList front).utf8ByteSize ∧
    l.pos = Pos.behind front

def Placed (l : Lexer source) : Prop :=
  ∃ back, l.StandsBefore back

/-- The lexer stands between two characters of its source; its line and column are those of that
place, and both fit into a word. -/
structure Exact (l : Lexer source) : Prop where
  inside : l.offset ≤ source.utf8ByteSize
  boundary : String.Pos.Raw.IsValid source ⟨l.offset⟩
  placed : l.Placed
  line : l.pos.line < UInt32.size
  column : l.pos.column < UInt32.size

/-- What the calls on a lexer answer is placed in the source. -/
structure AnswersPlaced (l : Lexer source) : Prop where
  token : ∀ t l', l.next = (.ok t, l') → ∃ rest, l'.StandsBefore rest ∧ t.CutFrom source.toList rest
  noToken : ∀ e l', l.next = (.error e, l') → e.PlacedIn source.toList
  block : ∀ b l', l.capture = (.ok b, l') →
    ∃ rest, l'.StandsBefore rest ∧ b.CutFrom source.toList rest
  noBlock : ∀ e l', l.capture = (.error e, l') → e.PlacedIn source.toList

theorem placed_start (source : String) : (start source).Placed :=
  ⟨source.toList, [], rfl, rfl, rfl⟩

theorem Tracks.standsBefore {s : Stream} (h : l.Tracks s) (hs : s.Within source.toList) :
    l.StandsBefore s.rest := by
  obtain ⟨front, hsource, hoffset⟩ := h.split
  obtain ⟨front', hsource', hpos⟩ := Stream.within_iff_standsAt.mp hs
  obtain rfl : front = front' := List.append_cancel_right (hsource.symm.trans hsource')
  exact ⟨front, hsource, by rw [hoffset, Utf8.length_encode], by rw [h.pos_eq, hpos]⟩

/-- A lexer is placed where a stream of its source stands. -/
theorem placed_iff : l.Placed ↔ ∃ s, l.Tracks s ∧ s.Within source.toList := by
  constructor
  · rintro ⟨back, front, hsource, hoffset, hpos⟩
    have hahead : l.Ahead back := ⟨front, hsource, hoffset⟩
    exact ⟨_, hahead.tracks, Stream.within_iff_standsAt.mpr ⟨front, hsource, hpos⟩⟩
  · rintro ⟨s, htracks, hs⟩
    exact ⟨s.rest, htracks.standsBefore hs⟩

namespace Placed

theorem next (h : l.Placed) : l.next.2.Placed := by
  obtain ⟨s, htracks, hs⟩ := placed_iff.mp h
  refine placed_iff.mpr ⟨s.next.2, htracks.next.2, ?_⟩
  cases hnext : s.next with
  | mk found s' =>
    cases found with
    | ok t => exact hs.next hnext
    | error e => exact (hs.next_error hnext).2

theorem capture (h : l.Placed) : l.capture.2.Placed := by
  obtain ⟨s, htracks, hs⟩ := placed_iff.mp h
  refine placed_iff.mpr ⟨s.capture.2, htracks.capture.2, ?_⟩
  cases hcapture : s.capture with
  | mk found s' =>
    cases found with
    | ok b => exact hs.capture hcapture
    | error e => exact (hs.capture_error hcapture).2

theorem of_next {answer : Except LexError Token} (h : l.Placed) (hnext : l.next = (answer, l')) :
    l'.Placed := by
  simpa [hnext] using h.next

theorem of_capture {answer : Except LexError Capture} (h : l.Placed)
    (hcapture : l.capture = (answer, l')) : l'.Placed := by
  simpa [hcapture] using h.capture

/-- Behind the end the lexer has read its source through. -/
theorem next_end {last : Pos} (h : l.Placed) (hnext : l.next = (.ok ⟨.endOfInput, last⟩, l')) :
    l' = ⟨source.utf8ByteSize, Pos.behind source.toList, true⟩ := by
  obtain ⟨s, htracks, hs⟩ := placed_iff.mp h
  obtain ⟨front, hsource, hpos⟩ := Stream.within_iff_standsAt.mp hs
  obtain ⟨s', hnext', htracks'⟩ := (answersAlike_tracks source).next_eq htracks hnext
  obtain ⟨_, rfl, rfl⟩ := Stream.next_end_tile hpos hnext'
  obtain ⟨before, hbefore, hoffset⟩ := htracks'.ahead
  rw [List.append_nil] at hbefore
  rw [← hbefore, String.ofList_toList] at hoffset
  calc l' = ⟨l'.offset, l'.pos, l'.ended⟩ := rfl
    _ = _ := by rw [hoffset, htracks'.pos_eq, htracks'.ended_eq, hsource]

theorem answersPlaced (h : l.Placed) : l.AnswersPlaced := by
  obtain ⟨s, htracks, hs⟩ := placed_iff.mp h
  obtain ⟨hnext, htracks'⟩ := htracks.next
  obtain ⟨hcapture, htracks''⟩ := htracks.capture
  refine ⟨fun t l' h => ?_, fun e l' h => ?_, fun b l' h => ?_, fun e l' h => ?_⟩
  · rw [h] at hnext htracks'
    have hs' : s.next = (.ok t, s.next.2) := Prod.ext hnext.symm rfl
    exact ⟨_, htracks'.standsBefore (hs.next hs'), hs.cutFrom_next hs'⟩
  · rw [h] at hnext
    exact (hs.next_error (Prod.ext hnext.symm rfl)).1
  · rw [h] at hcapture htracks''
    have hs' : s.capture = (.ok b, s.capture.2) := Prod.ext hcapture.symm rfl
    exact ⟨_, htracks''.standsBefore (hs.capture hs'), hs.cutFrom_capture hs'⟩
  · rw [h] at hcapture
    exact (hs.capture_error (Prod.ext hcapture.symm rfl)).1

theorem toExact (h : l.Placed) (hsize : source.utf8ByteSize < UInt32.size - 1) : l.Exact := by
  obtain ⟨s, htracks, hs⟩ := placed_iff.mp h
  obtain ⟨front, hsource, hoffset, hpos⟩ := htracks.standsBefore hs
  have hbytes : source.utf8ByteSize =
      (String.ofList front).utf8ByteSize + (String.ofList s.rest).utf8ByteSize := by
    rw [← String.utf8ByteSize_append, ← String.ofList_append, ← hsource, String.ofList_toList]
  have hlength := length_le_utf8ByteSize front
  have hline := Pos.line_behind_le front
  have hcolumn := Pos.column_behind_le front
  refine ⟨by omega, htracks.isValid, h, ?_, ?_⟩
  · rw [hpos]
    omega
  · rw [hpos]
    omega

end Placed

inductive Command
  | next
  | capture
  | checkpoint
  | rewind (n : Nat)

/-- A lexer and the lexers kept at the checkpoints so far. -/
structure Session (source : String) where
  lexer : Lexer source
  saved : List (Lexer source)

namespace Session

def start (source : String) : Session source := ⟨.start source, []⟩

/-- Reading goes on after an error; to return one needs a checkpoint. -/
def perform (x : Session source) : Command → Session source
  | .next => { x with lexer := x.lexer.next.2 }
  | .capture => { x with lexer := x.lexer.capture.2 }
  | .checkpoint => { x with saved := x.saved ++ [x.lexer] }
  | .rewind n => { x with lexer := x.saved.getD n x.lexer }

def run (x : Session source) (commands : List Command) : Session source :=
  commands.foldl perform x

/-- The lexer and every checkpoint stand at places of the source. -/
structure Placed (x : Session source) : Prop where
  lexer : x.lexer.Placed
  saved : ∀ l ∈ x.saved, l.Placed

theorem placed_start (source : String) : (start source).Placed :=
  ⟨Lexer.placed_start source, by simp [start]⟩

theorem Placed.perform {x : Session source} (h : x.Placed) (command : Command) :
    (x.perform command).Placed := by
  cases command with
  | next => exact ⟨h.lexer.next, h.saved⟩
  | capture => exact ⟨h.lexer.capture, h.saved⟩
  | checkpoint =>
    refine ⟨h.lexer, fun l hl => ?_⟩
    rcases List.mem_append.mp hl with hl | hl
    · exact h.saved l hl
    · rw [List.mem_singleton.mp hl]
      exact h.lexer
  | rewind n =>
    refine ⟨?_, h.saved⟩
    by_cases hn : n < x.saved.length
    · simpa [Session.perform, hn] using h.saved _ (List.getElem_mem hn)
    · simpa [Session.perform, hn] using h.lexer

theorem Placed.run {x : Session source} (h : x.Placed) (commands : List Command) :
    (x.run commands).Placed := by
  induction commands generalizing x with
  | nil => exact h
  | cons command commands ih => exact ih (h.perform command)

end Session

end Lexer

end Kfx
