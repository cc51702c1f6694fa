import Kfx.Grammar.Source
import Kfx.Proofs.Log

/-!
# What parsers make of what they read

A parser as a function from a source of tokens to a value and what is left of the source.
Diagnostics are left out here: what is parsed does not depend on them. One parser after another
succeeds when both do, and a loop succeeds when its rounds lead to an end.
-/
namespace Kfx

namespace Grammar.Parser

variable {α β σ τ S : Type} [TokenSource S] {s s' : S} {t : Token} {b : Capture} {e : LexError}

theorem readToken_of_ok (h : TokenSource.next s = (.ok t, s')) :
    readToken s = .ok ⟨t, s', Nat.le_of_lt (TokenSource.next_size_lt h)⟩ := by
  unfold readToken
  split
  · next hnext => cases h.symm.trans hnext
  · next hnext =>
    cases h.symm.trans hnext
    rfl

theorem readToken_of_error (h : TokenSource.next s = (.error e, s')) :
    readToken s = .fail (.lex e) := by
  unfold readToken
  split
  · next hnext =>
    cases h.symm.trans hnext
    rfl
  · next hnext => cases h.symm.trans hnext

theorem readBlock_of_ok (h : TokenSource.capture s = (.ok b, s')) :
    readBlock s = .ok ⟨b, s', Nat.le_of_lt (TokenSource.capture_size_lt h)⟩ := by
  unfold readBlock
  split
  · next hblock => cases h.symm.trans hblock
  · next hblock =>
    cases h.symm.trans hblock
    rfl

theorem readBlock_of_error (h : TokenSource.capture s = (.error e, s')) :
    readBlock s = .fail (.lex e) := by
  unfold readBlock
  split
  · next hblock =>
    cases h.symm.trans hblock
    rfl
  · next hblock => cases h.symm.trans hblock

/-- What a parser makes of `s`, and what it leaves of it. -/
def run (p : Parser α) (s : S) : Except ParseError (α × S) :=
  (p.exec s).result.map fun r => (r.value, r.rest)

theorem run_eq_ok {p : Parser α} {a : α} :
    p.run s = .ok (a, s') ↔ ∃ r, (p.exec s).result = .ok r ∧ r.value = a ∧ r.rest = s' := by
  unfold run
  cases (p.exec s).result with
  | error e => exact ⟨fun h => (by cases h), fun ⟨_, h, _⟩ => (by cases h)⟩
  | ok r => simp [Except.map]

theorem run_size_le {p : Parser α} {a : α} (h : p.run s = .ok (a, s')) :
    TokenSource.size s' ≤ TokenSource.size s := by
  obtain ⟨r, _, _, rfl⟩ := run_eq_ok.mp h
  exact r.size_le

@[simp] theorem run_pure (a : α) (s : S) : (Pure.pure a : Parser α).run s = .ok (a, s) := rfl

@[simp] theorem run_fail (e : ParseError) (s : S) : (fail e : Parser α).run s = .error e := rfl

@[simp] theorem run_mismatch (expected : String) (t : Token) (s : S) :
    (mismatch expected t : Parser α).run s = .error (.unexpected expected t) := rfl

@[simp] theorem run_say (level : LogLevel) (text : String) (s : S) :
    (say level text).run s = .ok ((), s) := rfl

@[simp] theorem run_again (state : σ) (s : S) :
    (again state : Parser (σ ⊕ τ)).run s = .ok (.inl state, s) := rfl

@[simp] theorem run_done (result : τ) (s : S) :
    (done result : Parser (σ ⊕ τ)).run s = .ok (.inr result, s) := rfl

theorem run_sequence (p : Parser α) (f : α → Parser β) (s : S) :
    (Parser.bind p f).run s = (p.run s).bind fun x => (f x.1).run x.2 := by
  unfold run
  rw [exec]
  unfold Logged.andThen
  cases (p.exec s).result with
  | error e => rfl
  | ok r =>
    simp only [Except.map, Except.bind]
    cases ((f r.value).exec r.rest).result <;> rfl

theorem run_bind (p : Parser α) (f : α → Parser β) (s : S) :
    (p >>= f).run s = (p.run s).bind fun x => (f x.1).run x.2 :=
  run_sequence p f s

@[simp] theorem run_bind_eq_ok {p : Parser α} {f : α → Parser β} {b : β} :
    (p >>= f).run s = .ok (b, s') ↔
      ∃ a s₁, p.run s = .ok (a, s₁) ∧ (f a).run s₁ = .ok (b, s') := by
  rw [run_bind]
  cases p.run s with
  | error e => exact ⟨fun h => (by cases h), fun ⟨_, _, h, _⟩ => (by cases h)⟩
  | ok x =>
    constructor
    · intro h
      exact ⟨x.1, x.2, rfl, h⟩
    · rintro ⟨a, s₁, hx, h⟩
      cases hx
      exact h

/-- A diagnostic on the way changes nothing. -/
theorem run_warned {c : Prop} [Decidable c] {level : LogLevel} {text : String}
    {p : Parser α} :
    (if c then say level text >>= fun _ => p else p).run s = p.run s := by
  split
  · rw [run_bind, run_say]
    rfl
  · rfl

theorem run_token_of_ok (h : TokenSource.next s = (.ok t, s')) : token.run s = .ok (t, s') := by
  unfold run
  rw [exec, readToken_of_ok h]
  rfl

theorem run_token_of_error (h : TokenSource.next s = (.error e, s')) :
    token.run s = .error (.lex e) := by
  unfold run
  rw [exec, readToken_of_error h]
  rfl

@[simp] theorem run_token_eq_ok : token.run s = .ok (t, s') ↔ TokenSource.next s = (.ok t, s') := by
  refine ⟨fun h => ?_, run_token_of_ok⟩
  cases hnext : TokenSource.next s with
  | mk answer s₁ =>
    cases answer with
    | ok t' =>
      cases (run_token_of_ok hnext).symm.trans h
      rfl
    | error e => cases (run_token_of_error hnext).symm.trans h

theorem run_capture_of_ok (h : TokenSource.capture s = (.ok b, s')) :
    capture.run s = .ok (b, s') := by
  unfold run
  rw [exec, readBlock_of_ok h]
  rfl

theorem run_capture_of_error (h : TokenSource.capture s = (.error e, s')) :
    capture.run s = .error (.lex e) := by
  unfold run
  rw [exec, readBlock_of_error h]
  rfl

@[simp] theorem run_capture_eq_ok :
    capture.run s = .ok (b, s') ↔ TokenSource.capture s = (.ok b, s') := by
  refine ⟨fun h => ?_, run_capture_of_ok⟩
  cases hblock : TokenSource.capture s with
  | mk answer s₁ =>
    cases answer with
    | ok b' =>
      cases (run_capture_of_ok hblock).symm.trans h
      rfl
    | error e => cases (run_capture_of_error hblock).symm.trans h

theorem run_eat_of_ok (symbol : Symbol) (h : TokenSource.next s = (.ok t, s')) :
    (eat symbol).run s = .ok (if t.lexeme = .symbol symbol then (true, s') else (false, s)) := by
  unfold run
  rw [exec, readSymbol, readToken_of_ok h, Logged.ok_andThen]
  dsimp only
  split <;> rfl

theorem run_eat_of_error (symbol : Symbol) (h : TokenSource.next s = (.error e, s')) :
    (eat symbol).run s = .error (.lex e) := by
  unfold run
  rw [exec, readSymbol, readToken_of_error h]
  rfl

/-- Eating looks at the next token in any case, so there has to be one. -/
theorem run_eat (symbol : Symbol) (s : S) : (eat symbol).run s =
    match TokenSource.next s with
    | (.ok t, s') => .ok (if t.lexeme = .symbol symbol then (true, s') else (false, s))
    | (.error e, _) => .error (.lex e) := by
  split
  · next hnext => exact run_eat_of_ok symbol hnext
  · next hnext => exact run_eat_of_error symbol hnext

/-- How a loop goes on behind a round. -/
def goOn (round : σ → Token → Parser (σ ⊕ τ)) : (σ ⊕ τ) × S → Except ParseError (τ × S)
  | (.inr result, s) => .ok (result, s)
  | (.inl state, s) => (loop round state).run s

/-- A loop takes a token, runs a round and goes on behind it. -/
theorem run_loop_of_ok (round : σ → Token → Parser (σ ⊕ τ)) (state : σ)
    (h : TokenSource.next s = (.ok t, s')) :
    (loop round state).run s = ((round state t).run s').bind (goOn round) := by
  unfold run
  rw [exec, iterate]
  split
  · next hnext => cases h.symm.trans hnext
  · next hnext =>
    cases h.symm.trans hnext
    unfold Logged.andThen
    dsimp only
    cases ((round state t).exec s').result with
    | error e => rfl
    | ok r =>
      obtain ⟨result, s₂, _⟩ := r
      cases result with
      | inr result => rfl
      | inl state' =>
        simp only [Except.map, Except.bind, goOn, run]
        rw [exec]
        cases (iterate (fun state t => (round state t).exec) state' s₂).result <;> rfl

theorem run_loop_of_error (round : σ → Token → Parser (σ ⊕ τ)) (state : σ)
    (h : TokenSource.next s = (.error e, s')) :
    (loop round state).run s = .error (.lex e) := by
  unfold run
  rw [exec, iterate]
  split
  · next hnext =>
    cases h.symm.trans hnext
    rfl
  · next hnext => cases h.symm.trans hnext

theorem run_loop (round : σ → Token → Parser (σ ⊕ τ)) (state : σ) (s : S) :
    (loop round state).run s =
      match TokenSource.next s with
      | (.error e, _) => .error (.lex e)
      | (.ok t, s₁) => ((round state t).run s₁).bind fun
        | (.inr result, s₂) => .ok (result, s₂)
        | (.inl state', s₂) => (loop round state').run s₂ := by
  split
  · next hnext => exact run_loop_of_error round state hnext
  · next hnext =>
    refine (run_loop_of_ok round state hnext).trans (congrArg _ (funext ?_))
    rintro ⟨result | state', s₂⟩ <;> rfl

/-- Rounds of a loop that lead to a result. -/
inductive Rounds (round : σ → Token → Parser (σ ⊕ τ)) : σ → S → τ → S → Prop
  | finish {state s t s₁ result s'} (hnext : TokenSource.next s = (.ok t, s₁))
      (hround : (round state t).run s₁ = .ok (.inr result, s')) : Rounds round state s result s'
  | again {state s t s₁ state' s₂ result s'} (hnext : TokenSource.next s = (.ok t, s₁))
      (hround : (round state t).run s₁ = .ok (.inl state', s₂))
      (hrest : Rounds round state' s₂ result s') : Rounds round state s result s'

/-- A loop that succeeds went through finitely many rounds. -/
theorem rounds_of_run_loop {round : σ → Token → Parser (σ ⊕ τ)} {state : σ} {result : τ}
    (h : (loop round state).run s = .ok (result, s')) : Rounds round state s result s' := by
  induction hsize : TokenSource.size s using Nat.strongRecOn generalizing s state with
  | ind n ih =>
    rw [run_loop] at h
    split at h
    · cases h
    · next t s₁ hnext =>
      cases hround : (round state t).run s₁ with
      | error e => rw [hround] at h; cases h
      | ok x =>
        obtain ⟨after, s₂⟩ := x
        rw [hround] at h
        cases after with
        | inr result' =>
          cases h
          exact .finish hnext hround
        | inl state' =>
          have hlt : TokenSource.size s₂ < n :=
            hsize ▸ Nat.lt_of_le_of_lt (run_size_le hround) (TokenSource.next_size_lt hnext)
          exact .again hnext hround (ih (TokenSource.size s₂) hlt h rfl)

theorem Rounds.run_loop {round : σ → Token → Parser (σ ⊕ τ)} {state : σ} {result : τ}
    (h : Rounds round state s result s') : (loop round state).run s = .ok (result, s') := by
  induction h with
  | finish hnext hround => rw [Parser.run_loop, hnext]; simp [hround, Except.bind]
  | again hnext hround _ ih => rw [Parser.run_loop, hnext]; simp [hround, Except.bind, ih]

/-- A loop succeeds exactly when its rounds come to an end. -/
theorem run_loop_eq_ok {round : σ → Token → Parser (σ ⊕ τ)} {state : σ} {result : τ} :
    (loop round state).run s = .ok (result, s') ↔ Rounds round state s result s' :=
  ⟨rounds_of_run_loop, Rounds.run_loop⟩

end Grammar.Parser

namespace Effect

open Grammar Grammar.Parser

variable {text : String} {e : Effect} {x : ParseError}

theorem result_parse (text : String) :
    (Effect.parse text).result = (source.run (Lexer.start text)).map Prod.fst := by
  unfold Effect.parse run Logged.andThen
  cases (source.exec (Lexer.start text)).result <;> rfl

theorem result_parse_eq_ok :
    (Effect.parse text).result = .ok e ↔ ∃ l, source.run (Lexer.start text) = .ok (e, l) := by
  rw [result_parse]
  cases source.run (Lexer.start text) with
  | error x => simp [Except.map]
  | ok read =>
    obtain ⟨e', l⟩ := read
    simp [Except.map]

theorem result_parse_eq_error :
    (Effect.parse text).result = .error x ↔ source.run (Lexer.start text) = .error x := by
  rw [result_parse]
  cases source.run (Lexer.start text) <;> simp [Except.map]

end Effect

end Kfx
