import Kfx.Proofs.Grammar.Composition
import Kfx.Proofs.Grammar.Events
import Kfx.Proofs.Grammar.RawText
import Kfx.Proofs.Token.Places

/-!
# Progress

Parsing gets on and never asks behind the end. Each round of a loop that leads to another one has
taken a byte, and whatever is looked at and not taken is put back. The end of the text comes too
early only where it breaks off a number or a code fragment, and a source that is parsed has been
read through.
-/
namespace Kfx

/-- Scanning meets the end of a text only behind a minus. -/
theorem Scan.eq_minus_of_endOfInput {p pos : Pos} {cs : List Char}
    (h : (scan p cs).found = .error ⟨.endOfInput, pos⟩) : cs = ['-'] := by
  cases cs with
  | nil => cases h
  | cons c r =>
    unfold scan at h
    dsimp only at h
    split at h
    · cases h
    · split at h
      · dsimp only at h
        split at h <;> cases h
      · split at h
        · next hminus =>
          split at h
          · rw [hminus]
          · split at h <;> cases h
        · split at h
          · cases h
          · split at h <;> cases h

namespace Stream

variable {s : Stream}

/-- The only token that the end of a text can break off is a minus without digits. -/
theorem next_endOfInput {pos : Pos} (hs : s.ended = false)
    (h : s.next.1 = .error ⟨.endOfInput, pos⟩) : ∃ w, s.rest = w ++ ['-'] ∧ IsGap false w := by
  unfold next at h
  simp only [hs, Bool.false_eq_true, if_false] at h
  split at h
  · cases h
  · next p cs hskip =>
    obtain ⟨w, hrest, _, hcovers⟩ := Trivia.skip_covers hskip
    split at h
    · next e hfound =>
      cases h
      cases Scan.eq_minus_of_endOfInput hfound
      exact ⟨w, hrest, hcovers⟩
    · cases h

/-- A block that meets the end is not there or not closed. -/
theorem capture_endOfInput {pos : Pos} (h : s.capture.1 = .error ⟨.endOfInput, pos⟩) :
    IsGap true s.rest ∨ ∃ w r, s.rest = w ++ '\x7b' :: r ∧ IsGap false w ∧
      ¬ ∃ g rest, r = g ++ '\x7d' :: rest ∧ Balanced g := by
  unfold capture at h
  split at h
  · cases h
  · next p hskip =>
    obtain ⟨w, hrest, _, hcovers⟩ := Trivia.skip_covers hskip
    rw [List.append_nil] at hrest
    exact .inl (hrest ▸ hcovers)
  · next p c r hskip =>
    obtain ⟨w, hrest, _, hcovers⟩ := Trivia.skip_covers hskip
    split at h
    · next hc =>
      subst hc
      split at h
      · next hsplit => exact .inr ⟨w, r, hrest, hcovers, splitBraces_eq_none_iff.mp hsplit⟩
      · cases h
    · cases h

end Stream

/-- The lexer stands in its source and has not reported the end. -/
structure Lexer.Open {source : String} (l : Lexer source) : Prop where
  unended : l.ended = false
  placed : l.Placed

namespace Grammar

open Kfx.Grammar.Parser

theorem staysOpen_lexer (source : String) : StaysOpen (Lexer.Open : Lexer source → Prop) where
  next := by
    intro l t l' hl hnext ht
    refine ⟨?_, hl.placed.of_next hnext⟩
    obtain ⟨_, ⟨hend, _⟩ | ⟨_, hpasses⟩⟩ := Lexer.next_cases hnext
    · exact absurd hend ht
    · exact hpasses.ended_eq.trans hl.unended
  capture := by
    intro l b l' hl hcapture
    exact ⟨(Lexer.passes_of_capture hcapture).ended_eq.trans hl.unended,
      hl.placed.of_capture hcapture⟩

/-- Nothing is asked for behind the end, raw text only for a code fragment; what is put back leaves
the lexer as it was, and a round that leads to another one has taken at least one byte. -/
def Event.Sound {source : String} : Event (Lexer source) → Prop
  | .next l => l.Open
  | .capture l => l.Open ∧ BehindCodeName Lexer.Open l
  | .putBack before behind => behind = before
  | .round before behind => before.offset < behind.offset

theorem Event.SoundFor.sound {source : String} {event : Event (Lexer source)}
    (h : event.SoundFor Lexer.Open) : event.Sound := by
  cases event with
  | round before behind =>
    obtain ⟨hbefore, hbehind, hlt⟩ := h
    have hsize : ∀ l : Lexer source, l.Open → TokenSource.size l = l.left + 1 := by
      intro l hl
      change l.size = l.left + 1
      rw [Lexer.size, hl.unended]
      rfl
    rw [hsize _ hbefore, hsize _ hbehind] at hlt
    unfold Lexer.left at hlt
    change before.offset < behind.offset
    omega
  | _ => exact h

/-- All that is done to parse a source is sound, from wherever its tokens are read. -/
theorem soundFrom_source {S : Type} [TokenSource S] {Open : S → Prop} (hopen : StaysOpen Open)
    {s : S} (hs : Open s) : SoundFrom Open true source s := by
  have halike : Alike (fun _ _ => True) none true Free source source := alike_items {} {}
  exact halike.soundFrom hopen hs behindToken_none

/-- The end of a text comes too early: it breaks off a number, or a code fragment before its block
or in it. -/
inductive BreaksOff (text : String) : Prop
  | minus {l : Lexer text} {w} (hl : l.Open) (hahead : l.Ahead (w ++ ['-'])) (hw : IsGap false w)
  | missing {l : Lexer text} {w} (hl : BehindCodeName Lexer.Open l) (hahead : l.Ahead w)
      (hw : IsGap true w)
  | unclosed {l : Lexer text} {w r} (hl : BehindCodeName Lexer.Open l)
      (hahead : l.Ahead (w ++ '\x7b' :: r)) (hw : IsGap false w)
      (hr : ¬ ∃ g rest, r = g ++ '\x7d' :: rest ∧ Balanced g)

theorem breaksOff_of_failsIn {text : String} {pos : Pos} {events : List (Event (Lexer text))}
    (hevents : ∀ event ∈ events, event.SoundFor Lexer.Open)
    (h : FailsIn ⟨.endOfInput, pos⟩ events) : BreaksOff text := by
  obtain ⟨l, ⟨hmem, herror⟩ | ⟨hmem, herror⟩⟩ := h
  · have hl : l.Open := hevents _ hmem
    obtain ⟨s, htracks, _⟩ := Lexer.placed_iff.mp hl.placed
    obtain ⟨w, hrest, hw⟩ := Stream.next_endOfInput (htracks.ended_eq.symm.trans hl.unended)
      (htracks.next.1.symm.trans herror)
    exact .minus hl (hrest ▸ htracks.ahead) hw
  · obtain ⟨hl, hbehind⟩ : l.Open ∧ BehindCodeName Lexer.Open l := hevents _ hmem
    obtain ⟨s, htracks, _⟩ := Lexer.placed_iff.mp hl.placed
    rcases Stream.capture_endOfInput (htracks.capture.1.symm.trans herror) with
      hrest | ⟨w, r, hrest, hw, hr⟩
    · exact .missing hbehind htracks.ahead hrest
    · exact .unclosed hbehind (hrest ▸ htracks.ahead) hw hr

theorem Reads.placed {text : String} {l l' : Lexer text} {ps : List Piece} (h : Reads l ps l')
    (hl : l.Placed) : l'.Placed := by
  induction h with
  | nil => exact hl
  | cons first _ ih =>
    cases first with
    | token hnext => exact ih (hl.of_next hnext)
    | raw hcapture => exact ih (hl.of_capture hcapture)

/-- A source that is parsed has been read through. -/
theorem lexer_of_run_source {text : String} {e : Effect} {l : Lexer text}
    (h : source.run (Lexer.start text) = .ok (e, l)) :
    l = ⟨text.utf8ByteSize, Pos.behind text.toList, true⟩ := by
  obtain ⟨ps, _, hreads, _, _⟩ := run_source_eq_ok.mp h
  obtain ⟨l₁, hfront, hend⟩ := reads_append.mp hreads
  obtain ⟨hnext⟩ := reads_single.mp hend
  exact (hfront.placed (Lexer.placed_start text)).next_end hnext

end Grammar

open Grammar Grammar.Parser

/-- Parsing gets on and never asks behind the end. All that happens while a source is parsed is
sound: tokens are asked for before the end is reported, what does not match is put back, and each
round of a loop that leads to another one has taken a byte. So the end comes too early only where it
breaks off a number or a code fragment, and a source that is parsed has been read through. -/
theorem Effect.parse_progress (text : String) :
    (∀ event ∈ source.trace (Lexer.start text), event.Sound) ∧
    (∀ pos, (Effect.parse text).result = .error (.lex ⟨.endOfInput, pos⟩) →
      BreaksOff text) ∧
    ∀ e, (Effect.parse text).result = .ok e →
      source.run (Lexer.start text) =
        .ok (e, ⟨text.utf8ByteSize, Pos.behind text.toList, true⟩) := by
  have hopen : (Lexer.start text).Open := ⟨rfl, Lexer.placed_start text⟩
  have hsound := soundFrom_source (staysOpen_lexer text) hopen
  refine ⟨fun event hevent => ?_, fun pos herror => ?_, fun e he => ?_⟩
  · exact (hsound.sound event hevent).sound
  · exact breaksOff_of_failsIn hsound.sound
      (hsound.error _ (Effect.result_parse_eq_error.mp herror))
  · obtain ⟨l, hrun⟩ := Effect.result_parse_eq_ok.mp he
    rw [hrun, lexer_of_run_source hrun]

/-- A fragment whose block has one brace too few behind a comment. The pass before it is one round
of the items. -/
def openFragment : String := "Pass P \x7b\x7d\nGLSL F /*\x7d*/ \x7b\x7b\x7d"

theorem openFragment_progress :
    .round ⟨0, ⟨1, 1⟩, false⟩ ⟨9, ⟨1, 10⟩, false⟩ ∈ source.trace (Lexer.start openFragment) ∧
    (Effect.parse openFragment).result = .error (.lex ⟨.endOfInput, ⟨2, 17⟩⟩) ∧
    BreaksOff openFragment := by
  have hround : .round ⟨0, ⟨1, 1⟩, false⟩ ⟨9, ⟨1, 10⟩, false⟩ ∈
      source.trace (Lexer.start openFragment) := by decide +kernel
  have herror : (Effect.parse openFragment).result = .error (.lex ⟨.endOfInput, ⟨2, 17⟩⟩) := by
    decide +kernel
  exact ⟨hround, herror, (Effect.parse_progress openFragment).2.1 _ herror⟩

end Kfx
