import Kfx.Log

/-!
# When a computation with diagnostics succeeds

One step after another succeeds when both do, and telling failures in other words makes no
difference. A computation on a state goes on from the state that the step before it left.
-/
namespace Kfx

/-- Whether a computation came to a given result can be found out by running it. -/
instance decidableEqOk {ε α : Type} [DecidableEq α] (x : Except ε α) (a : α) :
    Decidable (x = .ok a) :=
  match x with
  | .ok b => decidable_of_iff (b = a) (by simp)
  | .error _ => .isFalse (by simp)

instance decidableEqError {ε α : Type} [DecidableEq ε] (x : Except ε α) (e : ε) :
    Decidable (x = .error e) :=
  match x with
  | .ok _ => .isFalse (by simp)
  | .error e' => decidable_of_iff (e' = e) (by simp)

namespace Logged

variable {ε ε' α β : Type} {x : Logged ε α}

theorem result_andThen_eq_ok {f : α → Logged ε β} {b : β} :
    (x.andThen f).result = .ok b ↔ ∃ a, x.result = .ok a ∧ (f a).result = .ok b := by
  unfold Logged.andThen
  cases x.result with
  | error e => exact ⟨fun h => (by cases h), fun ⟨_, h, _⟩ => (by cases h)⟩
  | ok a =>
    constructor
    · intro h
      exact ⟨a, rfl, h⟩
    · rintro ⟨a', ha, h⟩
      cases ha
      exact h

theorem result_mapError_eq_ok {f : ε → ε'} {a : α} :
    (x.mapError f).result = .ok a ↔ x.result = .ok a := by
  obtain ⟨log, result⟩ := x
  constructor
  · intro h
    cases result <;> cases h
    rfl
  · rintro ⟨⟩
    rfl

end Logged

namespace LoggedT

variable {ε ε' α β : Type}

/-- What comes out of a computation that does nothing but log. -/
def outcome (x : LoggedT ε Id α) : Logged ε α := x

theorem outcome_ofLogged (x : Logged ε α) : (ofLogged x).outcome = x := rfl

theorem outcome_mapError (x : LoggedT ε Id α) (f : ε → ε') :
    (x.mapError f).outcome = x.outcome.mapError f := rfl

theorem outcome_bind (x : LoggedT ε Id α) (f : α → LoggedT ε Id β) :
    (x >>= f).outcome = x.outcome.andThen fun a => (f a).outcome := by
  change (x.andThen f).outcome = _
  unfold LoggedT.andThen Logged.andThen outcome
  cases hx : Logged.result x <;> simp [bind, pure, hx]

theorem result_bind (x : LoggedT ε Id α) (f : α → LoggedT ε Id β) :
    (x >>= f).outcome.result = x.outcome.result.bind fun a => (f a).outcome.result := by
  rw [outcome_bind]
  unfold Logged.andThen
  cases x.outcome.result <;> rfl

theorem result_bind_eq_ok {x : LoggedT ε Id α} {f : α → LoggedT ε Id β} {b : β} :
    (x >>= f).outcome.result = .ok b ↔
      ∃ a, x.outcome.result = .ok a ∧ (f a).outcome.result = .ok b := by
  rw [outcome_bind, Logged.result_andThen_eq_ok]

end LoggedT

section

variable {σ ε ε' α β : Type}

/-- A step and what follows it, from a known state. -/
theorem run_bind_of_run {x : StateM σ α} {f : α → StateM σ β} {st st' : σ} {a : α}
    (h : x.run st = (a, st')) : (x >>= f).run st = (f a).run st' := by
  rw [StateT.run_bind, h]
  rfl

namespace LoggedT

/-- What a computation comes to from a state, without its diagnostics, and the state behind it. -/
def runFrom (x : LoggedT ε (StateM σ) α) (st : σ) : Except ε α × σ :=
  let answer := StateT.run (x : StateM σ (Logged ε α)) st
  (answer.1.result, answer.2)

theorem runFrom_orFail (f : ε' → ε) (x : StateM σ (Except ε' α)) (st : σ) :
    (orFail f x : LoggedT ε (StateM σ) α).runFrom st =
      ((x.run st).1.mapError f, (x.run st).2) := rfl

theorem runFrom_mapError (f : ε → ε') (x : LoggedT ε (StateM σ) α) (st : σ) :
    (x.mapError f).runFrom st = ((x.runFrom st).1.mapError f, (x.runFrom st).2) := rfl

theorem runFrom_mapError_eq_ok {f : ε → ε'} {x : LoggedT ε (StateM σ) α} {st st' : σ} {a : α} :
    (x.mapError f).runFrom st = (.ok a, st') ↔ x.runFrom st = (.ok a, st') := by
  rw [runFrom_mapError]
  rcases x.runFrom st with ⟨_ | b, st₁⟩
  · constructor <;> rintro ⟨⟩
  · constructor <;> rintro ⟨⟩ <;> rfl

/-- A failure ends a computation, a success is what the rest goes on with. -/
theorem runFrom_bind (x : LoggedT ε (StateM σ) α) (f : α → LoggedT ε (StateM σ) β) (st : σ) :
    (x >>= f).runFrom st =
      match x.runFrom st with
      | (.error e, st') => (.error e, st')
      | (.ok a, st') => (f a).runFrom st' := by
  obtain ⟨⟨⟨log, result⟩, st'⟩, hx⟩ : ∃ answer,
      StateT.run (x : StateM σ (Logged ε α)) st = answer := ⟨_, rfl⟩
  change LoggedT.runFrom (LoggedT.andThen x f) st = _
  unfold runFrom LoggedT.andThen
  rw [run_bind_of_run hx, hx]
  cases result <;> rfl

theorem runFrom_bind_eq_ok {x : LoggedT ε (StateM σ) α} {f : α → LoggedT ε (StateM σ) β}
    {st st' : σ} {b : β} : (x >>= f).runFrom st = (.ok b, st') ↔
      ∃ a st₁, x.runFrom st = (.ok a, st₁) ∧ (f a).runFrom st₁ = (.ok b, st') := by
  rw [runFrom_bind]
  rcases x.runFrom st with ⟨_ | a, st₁⟩
  · simp
  · constructor
    · intro h
      exact ⟨a, st₁, rfl, h⟩
    · rintro ⟨_, _, ⟨⟩, h⟩
      exact h

theorem runFrom_bind_of_ok {x : LoggedT ε (StateM σ) α} {f : α → LoggedT ε (StateM σ) β}
    {st st' : σ} {a : α} (h : x.runFrom st = (.ok a, st')) :
    (x >>= f).runFrom st = (f a).runFrom st' := by
  rw [runFrom_bind, h]

theorem runFrom_bind_of_error {x : LoggedT ε (StateM σ) α} {f : α → LoggedT ε (StateM σ) β}
    {st st' : σ} {e : ε} (h : x.runFrom st = (.error e, st')) :
    (x >>= f).runFrom st = (.error e, st') := by
  rw [runFrom_bind, h]

end LoggedT

end

end Kfx
