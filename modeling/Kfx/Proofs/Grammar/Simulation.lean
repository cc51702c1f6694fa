import Kfx.Proofs.Grammar.Pieces
import Kfx.Proofs.Token.Simulation

/-!
# Parsing the lexer and parsing a stream

A parser asks for tokens and blocks and looks at nothing else. So it comes to the same end on any
two sources of tokens that answer alike, and parsing a text through the lexer is parsing its
characters as a stream.
-/
namespace Kfx

namespace Grammar

variable {S T : Type} [TokenSource S] [TokenSource T]

section

variable {related : S → T → Prop} {s s' : S} {t : T}

/-- Related sources start with the same pieces. -/
theorem Gives.transfer {x : Piece} (h : Gives s x s') (halike : AnswersAlike related)
    (hs : related s t) : ∃ t', Gives t x t' ∧ related s' t' := by
  cases h with
  | token hnext =>
    obtain ⟨t', hanswer, hs'⟩ := halike.next_eq hs hnext
    exact ⟨t', .token hanswer, hs'⟩
  | raw hcapture =>
    obtain ⟨t', hanswer, hs'⟩ := halike.capture_eq hs hcapture
    exact ⟨t', .raw hanswer, hs'⟩

theorem Reads.transfer {ps : List Piece} (h : Reads s ps s') (halike : AnswersAlike related)
    (hs : related s t) : ∃ t', Reads t ps t' ∧ related s' t' := by
  induction h generalizing t with
  | nil => exact ⟨t, .nil, hs⟩
  | cons first _ ih =>
    obtain ⟨t₁, hfirst, hs₁⟩ := first.transfer halike hs
    obtain ⟨t', hrest, hs'⟩ := ih hs₁
    exact ⟨t', .cons hfirst hrest, hs'⟩

end

namespace Parser

variable {α β σ τ : Type} {related : S → T → Prop} {s : S} {t : T}

/-- The same diagnostics and the same error, or the same value and what is left related. -/
inductive SameEnd (related : S → T → Prop) :
    Logged ParseError (Reading s α) → Logged ParseError (Reading t α) → Prop
  | error {log e} : SameEnd related ⟨log, .error e⟩ ⟨log, .error e⟩
  | ok {log a s' t' hs ht} (h : related s' t') :
    SameEnd related ⟨log, .ok ⟨a, s', hs⟩⟩ ⟨log, .ok ⟨a, t', ht⟩⟩

theorem SameEnd.andThen {s₁ : S} {t₁ : T} {x : Logged ParseError (Reading s α)}
    {y : Logged ParseError (Reading t α)} {f : Reading s α → Logged ParseError (Reading s₁ β)}
    {g : Reading t α → Logged ParseError (Reading t₁ β)} (h : SameEnd related x y)
    (hfg : ∀ r q, r.value = q.value → related r.rest q.rest → SameEnd related (f r) (g q)) :
    SameEnd related (x.andThen f) (y.andThen g) := by
  cases h with
  | error => exact .error
  | @ok log a s' t' hs ht hrelated =>
    have hrest := hfg ⟨a, s', hs⟩ ⟨a, t', ht⟩ rfl hrelated
    simp only [Logged.andThen]
    generalize f ⟨a, s', hs⟩ = x' at hrest
    generalize g ⟨a, t', ht⟩ = y' at hrest
    cases hrest with
    | error => exact .error
    | ok hrelated' => exact .ok hrelated'

variable (halike : AnswersAlike related)

include halike

theorem sameEnd_readToken (hs : related s t) : SameEnd related (readToken s) (readToken t) := by
  cases hnext : TokenSource.next s with
  | mk answer s' =>
    obtain ⟨t', hnext', hrest⟩ := halike.next_eq hs hnext
    cases answer with
    | error e =>
      rw [readToken_of_error hnext, readToken_of_error hnext']
      exact .error
    | ok token =>
      rw [readToken_of_ok hnext, readToken_of_ok hnext']
      exact .ok hrest

theorem sameEnd_readBlock (hs : related s t) : SameEnd related (readBlock s) (readBlock t) := by
  cases hblock : TokenSource.capture s with
  | mk answer s' =>
    obtain ⟨t', hblock', hrest⟩ := halike.capture_eq hs hblock
    cases answer with
    | error e =>
      rw [readBlock_of_error hblock, readBlock_of_error hblock']
      exact .error
    | ok block =>
      rw [readBlock_of_ok hblock, readBlock_of_ok hblock']
      exact .ok hrest

theorem sameEnd_readSymbol (symbol : Symbol) (hs : related s t) :
    SameEnd related (readSymbol symbol s) (readSymbol symbol t) := by
  refine (sameEnd_readToken halike hs).andThen fun r q hvalue hrest => ?_
  rw [hvalue]
  split
  · exact .ok hrest
  · exact .ok hs

/-- Loops whose rounds end alike end alike. -/
theorem sameEnd_iterate {round : σ → Token → (s : S) → Logged ParseError (Reading s (σ ⊕ τ))}
    {round' : σ → Token → (t : T) → Logged ParseError (Reading t (σ ⊕ τ))}
    (hround : ∀ state token s t, related s t →
      SameEnd related (round state token s) (round' state token t))
    (state : σ) (hs : related s t) :
    SameEnd related (iterate round state s) (iterate round' state t) := by
  -- On what is left to read: each round takes a token off both sources.
  induction hsize : TokenSource.size s using Nat.strongRecOn generalizing s t state with
  | ind n ih =>
    obtain ⟨hanswer, hrest⟩ := halike.next hs
    rw [iterate, iterate]
    split
    · next e s' hnext =>
      rw [hnext] at hanswer
      split
      · next hnext' =>
        rw [hnext'] at hanswer
        cases hanswer
        exact .error
      · next hnext' =>
        rw [hnext'] at hanswer
        cases hanswer
    · next token s' hnext =>
      rw [hnext] at hanswer hrest
      split
      · next hnext' =>
        rw [hnext'] at hanswer
        cases hanswer
      · next hnext' =>
        rw [hnext'] at hanswer hrest
        cases hanswer
        refine (hround state token _ _ hrest).andThen fun r q hvalue hbehind => ?_
        obtain ⟨value, s₂, hle⟩ := r
        obtain ⟨value', t₂, hle'⟩ := q
        cases hvalue
        cases value with
        | inr result => exact .ok hbehind
        | inl state' =>
          have hlt : TokenSource.size s₂ < n :=
            hsize ▸ Nat.lt_of_le_of_lt hle (TokenSource.next_size_lt hnext)
          refine (ih _ hlt state' hbehind rfl).andThen fun r q hvalue hend => ?_
          rw [hvalue]
          exact .ok hend

/-- A parser comes to the same end on sources of tokens that answer alike. -/
theorem sameEnd_exec (p : Parser α) (hs : related s t) :
    SameEnd related (p.exec s) (p.exec t) := by
  induction p generalizing s t with
  | pure a => exact .ok hs
  | bind p f ihp ihf =>
    refine (ihp hs).andThen fun r q hvalue hrest => ?_
    rw [hvalue]
    refine (ihf q.value hrest).andThen fun r' q' hvalue' hrest' => ?_
    rw [Reading.extend, Reading.extend, hvalue']
    exact .ok hrest'
  | fail e => exact .error
  | say level text => exact .ok hs
  | token => exact sameEnd_readToken halike hs
  | capture => exact sameEnd_readBlock halike hs
  | eat symbol => exact sameEnd_readSymbol halike symbol hs
  | loop round state ih =>
    exact sameEnd_iterate halike (fun state token _ _ hs => ih state token hs) state hs

/-- The same for what parsers make of what they read. -/
theorem run_alike (p : Parser α) (hs : related s t) :
    (∃ a s' t', p.run s = .ok (a, s') ∧ p.run t = .ok (a, t') ∧ related s' t') ∨
      ∃ e, p.run s = .error e ∧ p.run t = .error e := by
  have hsame := sameEnd_exec halike p hs
  unfold run
  generalize p.exec s = x at hsame
  generalize p.exec t = y at hsame
  cases hsame with
  | error => exact .inr ⟨_, rfl, rfl⟩
  | ok hrelated => exact .inl ⟨_, _, _, rfl, rfl, hrelated⟩

end Parser

/-- A source has the same pieces for the lexer as for a stream. -/
theorem reads_start_iff {text : String} {ps : List Piece} :
    (∃ l, Reads (Lexer.start text) ps l) ↔ ∃ s, Reads (Stream.ofString text) ps s := by
  constructor
  · rintro ⟨l, h⟩
    obtain ⟨s, hreads, _⟩ := h.transfer (answersAlike_tracks text) (Lexer.tracks_start text)
    exact ⟨s, hreads⟩
  · rintro ⟨s, h⟩
    obtain ⟨l, hreads, _⟩ := h.transfer (answersAlike_tracks text).flip (Lexer.tracks_start text)
    exact ⟨l, hreads⟩

end Grammar

namespace Effect

open Grammar Grammar.Parser

variable {text : String} {e : Effect} {x : ParseError}

/-- Parsing the bytes of a text is parsing its characters. -/
theorem result_parse_stream (text : String) :
    (Effect.parse text).result = (source.run (Stream.ofString text)).map Prod.fst := by
  rw [result_parse]
  rcases run_alike (answersAlike_tracks text) source (Lexer.tracks_start text) with
    ⟨_, _, _, hlexer, hstream, _⟩ | ⟨_, hlexer, hstream⟩
  · rw [hlexer, hstream]
    rfl
  · rw [hlexer, hstream]
    rfl

theorem result_parse_stream_eq_ok :
    (Effect.parse text).result = .ok e ↔ ∃ s', source.run (Stream.ofString text) = .ok (e, s') := by
  rw [result_parse_stream]
  cases source.run (Stream.ofString text) with
  | error x => simp [Except.map]
  | ok read =>
    obtain ⟨e', s'⟩ := read
    simp [Except.map]

theorem result_parse_stream_eq_error :
    (Effect.parse text).result = .error x ↔ source.run (Stream.ofString text) = .error x := by
  rw [result_parse_stream]
  cases source.run (Stream.ofString text) <;> simp [Except.map]

end Effect

end Kfx
