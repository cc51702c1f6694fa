/-!
# Diagnostics beside a result

Diagnostics collected beside a result. A failed computation keeps what it had logged before it
failed.
-/
namespace Kfx

/-- How much a diagnostic matters, least first. -/
inductive LogLevel
  | debug | info | warn | error
  deriving DecidableEq

def LogLevel.name : LogLevel → String
  | debug => "DEBUG"
  | info => "INFO"
  | warn => "WARN"
  | error => "ERROR"

structure LogEntry where
  level : LogLevel
  text : String
  deriving DecidableEq

def LogEntry.shown (e : LogEntry) : String :=
  e.level.name ++ " " ++ e.text

abbrev Log := List LogEntry

/-- A result or a failure, with the diagnostics that led to it in order. -/
structure Logged (ε α : Type) where
  log : Log
  result : Except ε α

namespace Logged

variable {ε α β : Type}

def ok (a : α) : Logged ε α := ⟨[], .ok a⟩

def fail (e : ε) : Logged ε α := ⟨[], .error e⟩

def say (level : LogLevel) (text : String) : Logged ε Unit := ⟨[⟨level, text⟩], .ok ()⟩

/-- Goes on with the result, after the diagnostics so far. -/
def andThen (x : Logged ε α) (f : α → Logged ε β) : Logged ε β :=
  match x.result with
  | .error e => ⟨x.log, .error e⟩
  | .ok a =>
    let y := f a
    ⟨x.log ++ y.log, y.result⟩

def mapError {ε' : Type} (f : ε → ε') (x : Logged ε α) : Logged ε' α :=
  ⟨x.log, x.result.mapError f⟩

instance : Monad (Logged ε) where
  pure := ok
  bind := andThen

@[simp] theorem ok_andThen (a : α) (f : α → Logged ε β) : (ok a).andThen f = f a := by
  simp [ok, andThen]

end Logged

def LoggedT (ε : Type) (m : Type → Type) (α : Type) : Type := m (Logged ε α)

namespace LoggedT

variable {ε ε' α β : Type} {m : Type → Type} [Monad m]

def ofLogged (x : Logged ε α) : LoggedT ε m α := (pure x : m (Logged ε α))

def andThen (x : LoggedT ε m α) (f : α → LoggedT ε m β) : LoggedT ε m β := (do
  let a ← (x : m (Logged ε α))
  match a.result with
  | .error e => return ⟨a.log, .error e⟩
  | .ok v =>
    let b ← (f v : m (Logged ε β))
    return ⟨a.log ++ b.log, b.result⟩ : m (Logged ε β))

instance : Monad (LoggedT ε m) where
  pure a := ofLogged (.ok a)
  bind := andThen

def fail (e : ε) : LoggedT ε m α := ofLogged (.fail e)

def say (level : LogLevel) (text : String) : LoggedT ε m Unit := ofLogged (.say level text)

def mapError (f : ε → ε') (x : LoggedT ε m α) : LoggedT ε' m α := (do
  let a ← (x : m (Logged ε α))
  return a.mapError f : m (Logged ε' α))

def lift (x : m α) : LoggedT ε m α := (do
  let a ← x
  return .ok a : m (Logged ε α))

/-- A computation that may fail, its failure told as `f`. -/
def orFail (f : ε' → ε) (x : m (Except ε' α)) : LoggedT ε m α := (do
  let a ← x
  return ⟨[], a.mapError f⟩ : m (Logged ε α))

end LoggedT

end Kfx
