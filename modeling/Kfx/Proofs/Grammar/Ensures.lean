import Kfx.Grammar.Parser
import Kfx.Proofs.Log

/-!
# What a parser ensures

What can be said of everything a parser may read, whatever it is read from: rules for one step after
another and, with an invariant, for loops.
-/
namespace Kfx

namespace Grammar.Parser

variable {α β σ τ : Type} {post : α → Prop} {post' : β → Prop}

/-- Whatever the parser reads has the property. -/
def Ensures (p : Parser α) (post : α → Prop) : Prop :=
  ∀ (S : Type) [TokenSource S] (s : S) r, (p.exec s).result = .ok r → post r.value

theorem ensures_pure {a : α} (h : post a) : Ensures (Pure.pure a) post := by
  intro S _ s r hr
  cases hr
  exact h

theorem ensures_fail (e : ParseError) : Ensures (fail e) post := by
  intro S _ s r hr
  cases hr

theorem ensures_mismatch (expected : String) (t : Token) : Ensures (mismatch expected t) post :=
  ensures_fail _

theorem Ensures.bind {p : Parser α} {f : α → Parser β} (hp : Ensures p post)
    (hf : ∀ a, post a → Ensures (f a) post') : Ensures (p >>= f) post' := by
  intro S _ s r hr
  obtain ⟨first, hfirst, hrest⟩ := Logged.result_andThen_eq_ok.mp hr
  obtain ⟨second, hsecond, hok⟩ := Logged.result_andThen_eq_ok.mp hrest
  cases hok
  exact hf first.value (hp S s first hfirst) S first.rest second hsecond

/-- The first step may be anything. -/
theorem ensures_bind {p : Parser α} {f : α → Parser β} (hf : ∀ a, Ensures (f a) post') :
    Ensures (p >>= f) post' := by
  have hp : Ensures p fun _ => True := fun _ _ _ _ _ => trivial
  exact hp.bind fun a _ => hf a

/-- What a round of a loop may lead to. -/
def RoundPost (invariant : σ → Prop) (post : τ → Prop) : σ ⊕ τ → Prop
  | .inl state => invariant state
  | .inr result => post result

theorem ensures_again {invariant : σ → Prop} {post : τ → Prop} {state : σ} (h : invariant state) :
    Ensures (again state) (RoundPost invariant post) := by
  intro S _ s r hr
  cases hr
  exact h

theorem ensures_done {invariant : σ → Prop} {post : τ → Prop} {result : τ} (h : post result) :
    Ensures (done result) (RoundPost invariant post) := by
  intro S _ s r hr
  cases hr
  exact h

/-- A property that every round keeps holds at the end. -/
theorem ensures_loop (invariant : σ → Prop) {round : σ → Token → Parser (σ ⊕ τ)} {post : τ → Prop}
    (step : ∀ state t, invariant state → Ensures (round state t) (RoundPost invariant post))
    {state : σ} (start : invariant state) : Ensures (loop round state) post := by
  intro S _ s
  induction hsize : TokenSource.size s using Nat.strongRecOn generalizing s state with
  | ind n ih =>
    intro r hr
    rw [exec, iterate] at hr
    split at hr
    · cases hr
    · next t s' hnext =>
      obtain ⟨first, hfirst, hrest⟩ := Logged.result_andThen_eq_ok.mp hr
      have hpost := step state t start S s' first hfirst
      dsimp only at hrest
      split at hrest
      · next result hvalue =>
        rw [hvalue] at hpost
        cases hrest
        exact hpost
      · next state' hvalue =>
        rw [hvalue] at hpost
        obtain ⟨second, hsecond, hok⟩ := Logged.result_andThen_eq_ok.mp hrest
        cases hok
        have hlt : TokenSource.size first.rest < n :=
          hsize ▸ Nat.lt_of_le_of_lt first.size_le (TokenSource.next_size_lt hnext)
        rw [← exec] at hsecond
        exact ih _ hlt hpost first.rest rfl second hsecond

end Grammar.Parser

end Kfx
