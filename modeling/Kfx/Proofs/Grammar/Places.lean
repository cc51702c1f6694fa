import Kfx.Proofs.Grammar.Shape
import Kfx.Proofs.Grammar.Simulation
import Kfx.Proofs.Token.Places

/-!
# Places of errors

Every error of a parser is placed in the text it read. A parser passes on places of tokens and makes
none of its own.
-/
namespace Kfx

/-- The error is reported at a place of the text. -/
def ParseError.PlacedIn (text : List Char) : ParseError → Prop
  | .lex e => e.PlacedIn text
  | e => IsPlace text e.pos

theorem ParseError.Alike.placedIn {text : List Char} {e e' : ParseError}
    (h : e.Alike (fun p _ => IsPlace text p) e') : e.PlacedIn text := by
  obtain ⟨hplace, hgrammar⟩ := h
  cases e with
  | lex e => exact hgrammar.elim
  | _ => exact hplace

namespace Grammar

open Kfx.Grammar.Parser

/-- A text read twice: what is read has the same places both times, and they are places of it. -/
theorem comparable_within (text : List Char) :
    Comparable (fun p _ => IsPlace text p) (fun e _ => e.PlacedIn text)
      (fun s s' : Stream => s = s' ∧ s.Within text) where
  next := by
    rintro s _ ⟨rfl, hs⟩
    change CallsAlike _ _ _ s.next s.next
    cases hnext : s.next with
    | mk found s' =>
      cases found with
      | ok t => exact .ok (.mk (hs.isPlace_next hnext)) ⟨rfl, hs.next hnext⟩
      | error e => exact .error (hs.next_error hnext).1
  capture := by
    rintro s _ ⟨rfl, hs⟩
    change CallsAlike _ _ _ s.capture s.capture
    cases hcapture : s.capture with
    | mk found s' =>
      cases found with
      | ok b => exact .ok rfl ⟨rfl, hs.capture hcapture⟩
      | error e => exact .error (hs.capture_error hcapture).1

end Grammar

open Grammar Grammar.Parser

theorem Effect.parse_error_placed {text : String} {e : ParseError}
    (h : (Effect.parse text).result = .error e) : e.PlacedIn text.toList := by
  have halike : Grammar.Alike (fun p _ => IsPlace text.toList p) none true Free source source :=
    alike_items {} {}
  have hends := halike.endsAlike (comparable_within text.toList)
    ⟨rfl, Stream.within_ofString text⟩
  change EndsAlike _ _ _ _ (source.run _) (source.run _) at hends
  rw [Effect.result_parse_stream_eq_error.mp h] at hends
  cases hends with
  | error halike => exact halike.placedIn
  | lex hplaced => exact hplaced

/-- After any calls, errors and returns to checkpoints a lexer stands between two characters of its
source, with the line and column of that place. What the next call answers, and what parsing the
source reports, is placed in the source too; no text is cut out in the middle of a character. -/
theorem Lexer.places_exact (source : String) (hsize : source.utf8ByteSize < UInt32.size - 1) :
    (∀ commands, ((Session.start source).run commands).lexer.Exact ∧
      ((Session.start source).run commands).lexer.AnswersPlaced) ∧
    ∀ e, (Effect.parse source).result = .error e → e.PlacedIn source.toList := by
  refine ⟨fun commands => ?_, fun e he => Effect.parse_error_placed he⟩
  have hplaced := ((Session.placed_start source).run commands).lexer
  exact ⟨hplaced.toExact hsize, hplaced.answersPlaced⟩

/-- An open text that ends in an escaped character of two bytes, a comment, and a character that
starts no token. -/
def brokenSource : String := "\"\\é\n/*ö*/ß"

theorem brokenSource_places :
    brokenSource.utf8ByteSize < UInt32.size - 1 ∧
    ((Lexer.Session.start brokenSource).run [.next]).lexer.next.1 =
      .error ⟨.stray 'ß', ⟨2, 6⟩⟩ ∧
    LexError.PlacedIn brokenSource.toList ⟨.stray 'ß', ⟨2, 6⟩⟩ ∧
    ((Lexer.Session.start brokenSource).run [.checkpoint, .next, .next, .rewind 0, .next]).lexer =
      ⟨4, ⟨1, 4⟩, false⟩ ∧
    Lexer.Exact (⟨4, ⟨1, 4⟩, false⟩ : Lexer brokenSource) := by
  have hsize : brokenSource.utf8ByteSize < UInt32.size - 1 := by decide
  have hplaces := (Lexer.places_exact brokenSource hsize).1
  have hstray : ((Lexer.Session.start brokenSource).run [.next]).lexer.next.1 =
      .error ⟨.stray 'ß', ⟨2, 6⟩⟩ := by decide +kernel
  have hback : ((Lexer.Session.start brokenSource).run
      [.checkpoint, .next, .next, .rewind 0, .next]).lexer = ⟨4, ⟨1, 4⟩, false⟩ := by decide +kernel
  exact ⟨hsize, hstray, (hplaces [.next]).2.noToken _ _ (Prod.ext hstray rfl), hback,
    hback ▸ (hplaces [.checkpoint, .next, .next, .rewind 0, .next]).1⟩

end Kfx
