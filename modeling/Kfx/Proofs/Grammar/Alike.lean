import Kfx.Proofs.Grammar.Run

/-!
# Parsers that are alike

Two parsers that differ in places only. A parser looks at what a token says and passes on where it
stands, so two runs whose tokens differ in their places differ in the places they report. The
relation also keeps account of what was read last: a token is asked for only as long as the one
before was not the end of input, and a block of raw text only behind the word `GLSL` and a name.
-/
namespace Kfx

namespace ParseError

/-- The error is one of the grammar and not of the lexer. -/
def OfGrammar : ParseError → Prop
  | lex _ => False
  | _ => True

def moveTo (pos : Pos) : ParseError → ParseError
  | lex e => lex ⟨e.fault, pos⟩
  | unexpected expected found => unexpected expected ⟨found.lexeme, pos⟩
  | notKeyword keyword found => notKeyword keyword ⟨found.lexeme, pos⟩
  | unknownWord context word _ => unknownWord context word pos
  | badValue what value _ => badValue what value pos
  | negativeLength value _ => negativeLength value pos
  | openArray found => openArray ⟨found.lexeme, pos⟩
  | badCount what found => badCount what ⟨found.lexeme, pos⟩
  | duplicateLink what pass _ => duplicateLink what pass pos
  | tooDeep limit _ => tooDeep limit pos

/-- Errors of the grammar that differ in their places only. -/
inductive Alike (P : Pos → Pos → Prop) (e : ParseError) : ParseError → Prop
  | mk {pos} (h : P e.pos pos) (he : e.OfGrammar) : Alike P e (e.moveTo pos)

end ParseError

namespace Grammar

open Kfx.Grammar.Parser

section

variable (P : Pos → Pos → Prop)

/-- Tokens that differ in their places only. -/
inductive TokensAlike : Token → Token → Prop
  | mk {l pos pos'} (h : P pos pos') : TokensAlike ⟨l, pos⟩ ⟨l, pos'⟩

inductive WordsAlike : String × Pos → String × Pos → Prop
  | mk {w pos pos'} (h : P pos pos') : WordsAlike (w, pos) (w, pos')

/-- What the rounds of two loops may lead to. -/
inductive RoundsAlike {σ τ : Type} (I : σ → σ → Prop) (R : τ → τ → Prop) : σ ⊕ τ → σ ⊕ τ → Prop
  | again {a b} (h : I a b) : RoundsAlike I R (.inl a) (.inl b)
  | done {a b} (h : R a b) : RoundsAlike I R (.inr a) (.inr b)

/-- Parsers that stop at once when the end of input was read: they fail, or they succeed if they are
the `final` ones. -/
inductive Stops : (final : Bool) → {α : Type} → (α → α → Prop) → Parser α → Parser α → Prop
  | fail {final : Bool} {α : Type} {R : α → α → Prop} {e e'} (h : e.Alike P e') :
    Stops final R (.fail e) (.fail e')
  | bind {final : Bool} {α β : Type} {R : α → α → Prop} {S : β → β → Prop} {p q}
      {f g : α → Parser β} (first : Stops false R p q) : Stops final S (.bind p f) (.bind q g)
  | done {α : Type} {R : α → α → Prop} {a b} (h : R a b) : Stops true R (.pure a) (.pure b)

/-- Two parsers that do the same on tokens that differ in their places only. `before` is the token
that was read last, if that is known, and only a `final` parser may leave nothing to read. -/
inductive Alike : (before : Option Lexeme) → (final : Bool) → {α : Type} → (α → α → Prop) →
    Parser α → Parser α → Prop
  | pure {before final} {α : Type} {R : α → α → Prop} {a b} (h : R a b) :
    Alike before final R (.pure a) (.pure b)
  | fail {before final} {α : Type} {R : α → α → Prop} {e e'} (h : e.Alike P e') :
    Alike before final R (.fail e) (.fail e')
  | say {before final} {R : Unit → Unit → Prop} {level text text'} (h : R () ()) :
    Alike before final R (.say level text) (.say level text')
  | eat {before final} (symbol : Symbol) : Alike before final Eq (.eat symbol) (.eat symbol)
  | token {before final} {β : Type} {S : β → β → Prop} {f g : Token → Parser β}
      (go : ∀ l pos pos', P pos pos' → l ≠ .endOfInput →
        Alike (some l) final S (f ⟨l, pos⟩) (g ⟨l, pos'⟩))
      (stop : ∀ pos pos', P pos pos' →
        Stops P false S (f ⟨.endOfInput, pos⟩) (g ⟨.endOfInput, pos'⟩)) :
    Alike before final S (.bind .token f) (.bind .token g)
  /-- Raw text is read nowhere else. -/
  | code {final} {β : Type} {S : β → β → Prop} {f g : String → Capture → Parser β}
      (name : Alike none false Eq expectName expectName)
      (rest : ∀ name text pos pos', Alike none final S (f name ⟨text, pos⟩) (g name ⟨text, pos'⟩)) :
    Alike (some (.word "GLSL")) final S (.bind expectName fun name => .bind .capture (f name))
      (.bind expectName fun name => .bind .capture (g name))
  | bind {before final} {α β : Type} {R : α → α → Prop} {S : β → β → Prop} {p q}
      {f g : α → Parser β}
      (first : Alike before false R p q) (rest : ∀ a b, R a b → Alike none final S (f a) (g b)) :
    Alike before final S (.bind p f) (.bind q g)
  | loop {before final} {σ τ : Type} {I : σ → σ → Prop} {R : τ → τ → Prop}
      {round round' : σ → Token → Parser (σ ⊕ τ)}
      (go : ∀ a b l pos pos', I a b → P pos pos' → l ≠ .endOfInput →
        Alike (some l) false (RoundsAlike I R) (round a ⟨l, pos⟩) (round' b ⟨l, pos'⟩))
      (stop : ∀ a b pos pos', I a b → P pos pos' → Stops P final
        (RoundsAlike (fun _ _ => False) R) (round a ⟨.endOfInput, pos⟩)
          (round' b ⟨.endOfInput, pos'⟩))
      {a b} (start : I a b) : Alike before final R (.loop round a) (.loop round' b)
  /-- A diagnostic of one of the two makes no difference. -/
  | sayLeft {before final} {α : Type} {R : α → α → Prop} {level text p q}
      (h : Alike before final R p q) : Alike before final R (.bind (.say level text) fun _ => p) q
  | sayRight {before final} {α : Type} {R : α → α → Prop} {level text p q}
      (h : Alike before final R p q) : Alike before final R p (.bind (.say level text) fun _ => q)

end

section Runs

variable {P : Pos → Pos → Prop} {α β σ τ : Type} {S T : Type} [TokenSource S] [TokenSource T]

/-- What two calls answer: values that are alike, and what is left related; or errors that are. -/
inductive CallsAlike (related : S → T → Prop) (V : α → α → Prop) (E : LexError → LexError → Prop) :
    Except LexError α × S → Except LexError α × T → Prop
  | ok {a b s t} (h : V a b) (hs : related s t) : CallsAlike related V E (.ok a, s) (.ok b, t)
  | error {e e' s t} (h : E e e') : CallsAlike related V E (.error e, s) (.error e', t)

/-- Related sources of tokens answer alike. -/
structure Comparable (P : Pos → Pos → Prop) (E : LexError → LexError → Prop)
    (related : S → T → Prop) : Prop where
  next : ∀ {s t}, related s t →
    CallsAlike related (TokensAlike P) E (TokenSource.next s) (TokenSource.next t)
  capture : ∀ {s t}, related s t →
    CallsAlike related (fun b b' => b.text = b'.text) E (TokenSource.capture s)
      (TokenSource.capture t)

inductive EndsAlike (P : Pos → Pos → Prop) (E : LexError → LexError → Prop)
    (related : S → T → Prop) (R : α → α → Prop) :
    Except ParseError (α × S) → Except ParseError (α × T) → Prop
  | ok {a b s t} (h : R a b) (hs : related s t) : EndsAlike P E related R (.ok (a, s)) (.ok (b, t))
  | error {e e'} (h : e.Alike P e') : EndsAlike P E related R (.error e) (.error e')
  | lex {e e'} (h : E e e') : EndsAlike P E related R (.error (.lex e)) (.error (.lex e'))

variable {E : LexError → LexError → Prop} {related : S → T → Prop} {s : S} {t : T}
  {R : α → α → Prop}

omit [TokenSource S] [TokenSource T] in
theorem EndsAlike.mono {U : α → α → Prop} {x : Except ParseError (α × S)}
    {y : Except ParseError (α × T)} (h : EndsAlike P E related R x y)
    (himp : ∀ a b, R a b → U a b) :
    EndsAlike P E related U x y := by
  cases h with
  | ok h hs => exact .ok (himp _ _ h) hs
  | error h => exact .error h
  | lex h => exact .lex h

theorem EndsAlike.bind {U : β → β → Prop} {p q : Parser α} {f : α × S → Except ParseError (β × S)}
    {g : α × T → Except ParseError (β × T)}
    (h : EndsAlike P E related R (p.run s) (q.run t))
    (hfg : ∀ a b s' t', p.run s = .ok (a, s') → R a b → related s' t' →
      EndsAlike P E related U (f (a, s')) (g (b, t'))) :
    EndsAlike P E related U ((p.run s).bind f) ((q.run t).bind g) := by
  generalize p.run s = x at h hfg
  generalize q.run t = y at h
  cases h with
  | ok h hs => exact hfg _ _ _ _ rfl h hs
  | error h => exact .error h
  | lex h => exact .lex h

/-- Parsers that stop fail with errors that are alike, wherever they are run, or they give values
and read nothing. -/
theorem Stops.cases {final : Bool} {p q : Parser α} (h : Stops P final R p q) :
    (∃ e e', e.Alike P e' ∧ ∀ (s : S) (t : T), p.run s = .error e ∧ q.run t = .error e') ∨
      final = true ∧ ∃ a b, R a b ∧ p = .pure a ∧ q = .pure b := by
  induction h with
  | fail h => exact .inl ⟨_, _, h, fun _ _ => ⟨rfl, rfl⟩⟩
  | bind _ ih =>
    obtain ⟨e, e', halike, hfail⟩ := ih.resolve_right (by simp)
    refine .inl ⟨e, e', halike, fun s t => ?_⟩
    rw [run_sequence, run_sequence, (hfail s t).1, (hfail s t).2]
    exact ⟨rfl, rfl⟩
  | done h => exact .inr ⟨rfl, _, _, h, rfl, rfl⟩

theorem Stops.endsAlike {final : Bool} {p q : Parser α} (h : Stops P final R p q)
    (hs : related s t) : EndsAlike P E related R (p.run s) (q.run t) := by
  rcases h.cases (S := S) (T := T) with ⟨e, e', halike, hfail⟩ | ⟨_, a, b, hab, rfl, rfl⟩
  · rw [(hfail s t).1, (hfail s t).2]
    exact .error halike
  · exact .ok hab hs

theorem endsAlike_token (hcomparable : Comparable P E related) (hs : related s t) :
    EndsAlike P E related (TokensAlike P) (token.run s) (token.run t) := by
  have hcalls := hcomparable.next hs
  generalize hx : TokenSource.next s = x at hcalls
  generalize hy : TokenSource.next t = y at hcalls
  cases hcalls with
  | ok h hs =>
    rw [run_token_of_ok hx, run_token_of_ok hy]
    exact .ok h hs
  | error h =>
    rw [run_token_of_error hx, run_token_of_error hy]
    exact .lex h

theorem endsAlike_capture (hcomparable : Comparable P E related) (hs : related s t) :
    EndsAlike P E related (fun b b' => b.text = b'.text) (capture.run s)
      (capture.run t) := by
  have hcalls := hcomparable.capture hs
  generalize hx : TokenSource.capture s = x at hcalls
  generalize hy : TokenSource.capture t = y at hcalls
  cases hcalls with
  | ok h hs =>
    rw [run_capture_of_ok hx, run_capture_of_ok hy]
    exact .ok h hs
  | error h =>
    rw [run_capture_of_error hx, run_capture_of_error hy]
    exact .lex h

theorem endsAlike_eat (hcomparable : Comparable P E related) (hs : related s t) (y : Symbol) :
    EndsAlike P E related Eq ((eat y).run s) ((eat y).run t) := by
  have hcalls := hcomparable.next hs
  generalize hx : TokenSource.next s = x at hcalls
  generalize hy : TokenSource.next t = x' at hcalls
  cases hcalls with
  | ok h hs' =>
    obtain ⟨_⟩ := h
    rw [run_eat_of_ok y hx, run_eat_of_ok y hy]
    dsimp only
    split
    · exact .ok rfl hs'
    · exact .ok rfl hs
  | error h =>
    rw [run_eat_of_error y hx, run_eat_of_error y hy]
    exact .lex h

/-- Rounds that come to ends that are alike make loops that do. -/
theorem endsAlike_loop (hcomparable : Comparable P E related) {I : σ → σ → Prop} {R : τ → τ → Prop}
    {round round' : σ → Token → Parser (σ ⊕ τ)}
    (step : ∀ a b l pos pos' s t, I a b → P pos pos' → related s t →
      EndsAlike P E related (RoundsAlike I R) ((round a ⟨l, pos⟩).run s)
        ((round' b ⟨l, pos'⟩).run t))
    {a b : σ} (start : I a b) (hs : related s t) :
    EndsAlike P E related R ((loop round a).run s) ((loop round' b).run t) := by
  -- On what is left to read: each round takes a token off both sources.
  induction hsize : TokenSource.size s using Nat.strongRecOn generalizing s t a b with
  | ind n ih =>
    have hcalls := hcomparable.next hs
    generalize hx : TokenSource.next s = x at hcalls
    generalize hy : TokenSource.next t = x' at hcalls
    cases hcalls with
    | error h =>
      rw [run_loop_of_error round a hx, run_loop_of_error round' b hy]
      exact .lex h
    | ok h hs' =>
      obtain ⟨h⟩ := h
      rw [run_loop_of_ok round a hx, run_loop_of_ok round' b hy]
      refine (step a b _ _ _ _ _ start h hs').bind fun r r' s₂ t₂ houtcome hround hs₂ => ?_
      cases hround with
      | done h => exact .ok h hs₂
      | again h =>
        have hlt := Nat.lt_of_le_of_lt (run_size_le houtcome) (TokenSource.next_size_lt hx)
        exact ih _ (hsize ▸ hlt) h hs₂ rfl

/-- Parsers that are alike come to ends that are alike. -/
theorem Alike.endsAlike (hcomparable : Comparable P E related) {before : Option Lexeme}
    {final : Bool} {p q : Parser α} (h : Alike P before final R p q) (hs : related s t) :
    EndsAlike P E related R (p.run s) (q.run t) := by
  induction h generalizing s t with
  | pure h => exact .ok h hs
  | fail h => exact .error h
  | say h => exact .ok h hs
  | eat y => exact endsAlike_eat hcomparable hs y
  | token _ stop ih =>
    rw [run_sequence, run_sequence]
    refine (endsAlike_token hcomparable hs).bind fun _ _ s₁ t₁ _ htokens hs₁ => ?_
    obtain @⟨l, pos, pos', h⟩ := htokens
    by_cases hl : l = .endOfInput
    · subst hl
      exact (stop pos pos' h).endsAlike hs₁
    · exact ih l pos pos' h hl hs₁
  | code _ _ ihname ihrest =>
    rw [run_sequence, run_sequence]
    refine (ihname hs).bind fun name _ s₁ t₁ _ hname hs₁ => ?_
    subst hname
    dsimp only
    rw [run_sequence, run_sequence]
    refine (endsAlike_capture hcomparable hs₁).bind fun b b' s₂ t₂ _ hb hs₂ => ?_
    obtain ⟨text, pos⟩ := b
    obtain ⟨_, pos'⟩ := b'
    cases hb
    exact ihrest name text pos pos' hs₂
  | bind _ _ ihfirst ihrest =>
    rw [run_sequence, run_sequence]
    exact (ihfirst hs).bind fun a b s₁ t₁ _ hab hs₁ => ihrest a b hab hs₁
  | loop _ stop start ih =>
    refine endsAlike_loop hcomparable (fun a b l pos pos' s t hab h hs => ?_) start hs
    by_cases hl : l = .endOfInput
    · subst hl
      refine ((stop a b pos pos' hab h).endsAlike hs).mono fun r r' hround => ?_
      cases hround with
      | again h => exact h.elim
      | done h => exact .done h
    · exact ih a b l pos pos' hab h hl hs
  | sayLeft _ ih =>
    rw [run_sequence]
    exact ih hs
  | sayRight _ ih =>
    rw [run_sequence]
    exact ih hs

end Runs

end Grammar

end Kfx
