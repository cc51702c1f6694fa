import Kfx.Proofs.Grammar.Shape
import Kfx.Proofs.Token.Displacement

/-!
# A source some lines further down

A source that cannot be parsed cannot be parsed some lines further down either, whatever effect it
is added to. The error is the same, and its place is moved.
-/
namespace Kfx

namespace Stream

variable {k : Nat} {s s' : Stream}

theorem next_down_ok {t : Token} (h : s.next = (.ok t, s')) :
    (s.down k).next = (.ok (t.down k), s'.down k) := by
  rw [next_down, h]
  rfl

theorem next_down_error {e : LexError} (h : s.next = (.error e, s')) :
    (s.down k).next = (.error (e.down k), s'.down k) := by
  rw [next_down, h]
  rfl

theorem capture_down_ok {b : Capture} (h : s.capture = (.ok b, s')) :
    (s.down k).capture = (.ok (b.down k), s'.down k) := by
  rw [capture_down, h]
  rfl

theorem capture_down_error {e : LexError} (h : s.capture = (.error e, s')) :
    (s.down k).capture = (.error (e.down k), s'.down k) := by
  rw [capture_down, h]
  rfl

end Stream

theorem ParseError.Alike.eq_down {k : Nat} {e e' : ParseError}
    (h : e.Alike (fun p p' => p' = p.down k) e') : e' = e.down k := by
  obtain ⟨rfl, _⟩ := h
  cases e <;> rfl

namespace Grammar

open Kfx.Grammar.Parser

/-- A source of tokens answers alike some lines below. -/
theorem comparable_down (k : Nat) :
    Comparable (fun p p' => p' = p.down k) (fun e e' => e' = e.down k)
      (fun s s' : Stream => s' = s.down k) where
  next := by
    rintro s _ rfl
    change CallsAlike _ _ _ s.next (s.down k).next
    cases hnext : s.next with
    | mk found s' =>
      cases found with
      | ok t =>
        rw [Stream.next_down_ok hnext]
        exact .ok (.mk rfl) rfl
      | error e =>
        rw [Stream.next_down_error hnext]
        exact .error rfl
  capture := by
    rintro s _ rfl
    change CallsAlike _ _ _ s.capture (s.down k).capture
    cases hcapture : s.capture with
    | mk found s' =>
      cases found with
      | ok b =>
        rw [Stream.capture_down_ok hcapture]
        exact .ok rfl rfl
      | error e =>
        rw [Stream.capture_down_error hcapture]
        exact .error rfl

theorem run_items_down {e : Effect} {s : Stream} {x : ParseError}
    (h : (itemsUpTo .endOfInput (blockItems nestingLimit) e).run s = .error x) (e' : Effect)
    (k : Nat) :
    (itemsUpTo .endOfInput (blockItems nestingLimit) e').run (s.down k) = .error (x.down k) := by
  have halike : Alike (fun p p' => p' = p.down k) none true Free _ _ := alike_items e e'
  have hends := halike.endsAlike (comparable_down k) (s := s) rfl
  change EndsAlike _ _ _ _ (run _ s) (run _ (s.down k)) at hends
  rw [h] at hends
  generalize run _ (s.down k) = r at hends ⊢
  cases hends with
  | error halike => rw [halike.eq_down]
  | lex he =>
    rw [he]
    rfl

end Grammar

end Kfx
