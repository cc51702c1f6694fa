import Kfx.Log
import Kfx.Proofs.Files.Tree

/-!
# Computations as the calls they make

Computations on files as the calls they make: a call, and for each answer what follows. The calls of
several computations on one tree may come in any order, and an answer then depends on what the
others did; but the calls a computation may make are the same whoever else is at work.
-/
namespace Kfx

inductive FileCall
  | isFile (path : String)
  | isDirectory (path : String)
  | readBytes (path : String)
  | list (path : String)
  | makeDirectory (path : String)
  | write (path : String) (bytes : List UInt8)

namespace FileCall

def Answer : FileCall → Type
  | isFile _ => Bool
  | isDirectory _ => Bool
  | readBytes _ => Except FileFault (List UInt8)
  | list _ => Except FileFault (List String)
  | makeDirectory _ => Except FileFault Unit
  | write _ _ => Except FileFault Unit

def run : (c : FileCall) → StateM FileTree c.Answer
  | isFile path => FileTree.files.isFile path
  | isDirectory path => FileTree.files.isDirectory path
  | readBytes path => FileTree.files.readBytes path
  | list path => FileTree.files.list path
  | makeDirectory path => FileTree.files.makeDirectory path
  | write path bytes => FileTree.files.write path bytes

def perform (t : FileTree) (c : FileCall) : FileTree := (c.run t).2

def performAll (t : FileTree) (calls : List FileCall) : FileTree := calls.foldl perform t

variable {t : FileTree} {path : String} {L X : Location} {bytes : List UInt8}

/-- What a call can do to a tree. -/
theorem perform_cases (t : FileTree) (c : FileCall) :
    perform t c = t ∨
    (∃ path X, (t.locate path).location? = some X ∧ t.lookup X = none ∧
      perform t c = t.put X .directory) ∨
    ∃ path bytes X, c = .write path bytes ∧ (t.locate path).location? = some X ∧ t.Takes X ∧
      perform t c = t.put X (.file bytes) := by
  cases c with
  | isFile path | isDirectory path | readBytes path | list path => exact Or.inl rfl
  | makeDirectory path =>
    cases hmade : t.makeDirectory path with
    | error f =>
      refine Or.inl ?_
      simp [perform, run, FileTree.files, FileTree.step, hmade]
    | ok t' =>
      obtain ⟨X, hlocation, hfree, rfl⟩ := FileTree.makeDirectory_eq_ok hmade
      refine Or.inr (Or.inl ⟨path, X, hlocation, hfree, ?_⟩)
      simp [perform, run, FileTree.files, FileTree.step, hmade]
  | write path bytes =>
    cases hwritten : t.write path bytes with
    | error f =>
      refine Or.inl ?_
      simp [perform, run, FileTree.files, FileTree.step, hwritten]
    | ok t' =>
      obtain ⟨_, X, hlocation, htakes, rfl⟩ := FileTree.write_eq_ok hwritten
      refine Or.inr (Or.inr ⟨path, bytes, X, rfl, hlocation, htakes, ?_⟩)
      simp [perform, run, FileTree.files, FileTree.step, hwritten]

theorem wellFormed_perform (ht : t.WellFormed) (c : FileCall) : (perform t c).WellFormed := by
  rcases perform_cases t c with h | ⟨path, X, hlocation, hfree, h⟩ |
    ⟨path, bytes, X, _, hlocation, htakes, h⟩
  · rw [h]
    exact ht
  · rw [h]
    exact ht.put hlocation (by simp [FileTree.Takes, hfree])
  · rw [h]
    exact ht.put hlocation htakes

theorem wellFormed_performAll (ht : t.WellFormed) (calls : List FileCall) :
    (performAll t calls).WellFormed := by
  induction calls generalizing t with
  | nil => exact ht
  | cons c calls ih => exact ih (wellFormed_perform ht c)

/-- A file is only changed by writing to its location. -/
theorem locate_perform {c : FileCall} (h : t.locate path = .found L (.file bytes))
    (hc : ∀ other bs, c = .write other bs → (t.locate other).location? ≠ some L) :
    (perform t c).locate path = .found L (.file bytes) := by
  rcases perform_cases t c with hsame | ⟨other, X, hlocation, hfree, hput⟩ |
    ⟨other, bs, X, hwrite, hlocation, htakes, hput⟩
  · rw [hsame, h]
  · rw [hput]
    refine FileTree.locate_put_of_ne h (by simp [FileTree.Takes, hfree]) ?_
    rintro rfl
    rw [FileTree.lookup_of_found h] at hfree
    cases hfree
  · rw [hput]
    refine FileTree.locate_put_of_ne h htakes ?_
    rintro rfl
    exact hc other bs hwrite hlocation

end FileCall

/-- A computation that calls on files. -/
inductive Script (α : Type) : Type
  | done (a : α)
  | call (c : FileCall) (rest : c.Answer → Script α)

namespace Script

variable {α β : Type} {allowed : FileCall → Prop}

def bind (x : Script α) (f : α → Script β) : Script β :=
  match x with
  | done a => f a
  | call c rest => call c fun answer => (rest answer).bind f

instance : Monad Script where
  pure := done
  bind := bind

/-- Every operation is a call. -/
def files : Files Script where
  isFile path := call (.isFile path) done
  isDirectory path := call (.isDirectory path) done
  readBytes path := call (.readBytes path) done
  list path := call (.list path) done
  makeDirectory path := call (.makeDirectory path) done
  write path bytes := call (.write path bytes) done

/-- For some answers the computation makes this call. -/
inductive MayCall : Script α → FileCall → Prop
  | now {c rest} : MayCall (.call c rest) c
  | later {c rest c'} (answer : c.Answer) (h : MayCall (rest answer) c') : MayCall (.call c rest) c'

/-- Whatever the answers are, the computation only makes calls that are allowed. -/
def Uses (allowed : FileCall → Prop) (x : Script α) : Prop :=
  ∀ c, x.MayCall c → allowed c

/-- What a computation comes to on a tree that nobody else is at work on. -/
def on : Script α → FileTree → α × FileTree
  | done a, t => (a, t)
  | call c rest, t => (rest (c.run t).1).on (c.run t).2

theorem on_bind (x : Script α) (f : α → Script β) (t : FileTree) :
    (x >>= f).on t = (f (x.on t).1).on (x.on t).2 := by
  induction x generalizing t with
  | done a => rfl
  | call c rest ih => exact ih (c.run t).1 (c.run t).2

theorem Uses.bind {x : Script α} {f : α → Script β} (hx : Uses allowed x)
    (hf : ∀ a, Uses allowed (f a)) : Uses allowed (x >>= f) := by
  induction x with
  | done a => exact hf a
  | call c rest ih =>
    intro c' h
    cases h with
    | now => exact hx c .now
    | later answer h => exact ih answer (fun c' h => hx c' (.later answer h)) c' h

end Script

/-- The script of a computation on trees: it comes to the same on every tree, and makes no calls but
those that are allowed. -/
structure ScriptOf (allowed : FileCall → Prop) {α : Type} (x : Script α)
    (y : StateM FileTree α) : Prop where
  uses : x.Uses allowed
  run_eq : ∀ t, y.run t = x.on t

namespace ScriptOf

variable {α β : Type} {allowed : FileCall → Prop}

theorem done (a : α) : ScriptOf allowed (pure a) (pure a) where
  uses := by
    intro c h
    cases h
  run_eq _ := rfl

theorem call {c : FileCall} (hc : allowed c) : ScriptOf allowed (.call c .done) c.run where
  uses := by
    intro c' h
    cases h with
    | now => exact hc
    | later answer h => cases h
  run_eq _ := rfl

theorem bind {x : Script α} {y : StateM FileTree α} {f : α → Script β}
    {g : α → StateM FileTree β} (hx : ScriptOf allowed x y)
    (hf : ∀ a, ScriptOf allowed (f a) (g a)) : ScriptOf allowed (x >>= f) (y >>= g) where
  uses := hx.uses.bind fun a => (hf a).uses
  run_eq t := by
    rw [StateT.run_bind, hx.run_eq, Script.on_bind, ← (hf _).run_eq]
    rfl

theorem imp {weaker : FileCall → Prop} {x : Script α} {y : StateM FileTree α}
    (hx : ScriptOf allowed x y) (himp : ∀ c, allowed c → weaker c) : ScriptOf weaker x y where
  uses c h := himp c (hx.uses c h)
  run_eq := hx.run_eq

end ScriptOf

def LoggedScriptOf (allowed : FileCall → Prop) {ε α : Type} (x : LoggedT ε Script α)
    (y : LoggedT ε (StateM FileTree) α) : Prop :=
  ScriptOf allowed (x : Script (Logged ε α)) (y : StateM FileTree (Logged ε α))

namespace LoggedScriptOf

variable {α β ε ε' : Type} {allowed : FileCall → Prop}

theorem ofLogged (x : Logged ε α) :
    LoggedScriptOf allowed (LoggedT.ofLogged x) (LoggedT.ofLogged x) :=
  ScriptOf.done x

theorem pure (a : α) :
    LoggedScriptOf allowed (Pure.pure a : LoggedT ε Script α) (Pure.pure a) :=
  ScriptOf.done _

theorem bind {x : LoggedT ε Script α} {y : LoggedT ε (StateM FileTree) α}
    {f : α → LoggedT ε Script β} {g : α → LoggedT ε (StateM FileTree) β}
    (hx : LoggedScriptOf allowed x y) (hf : ∀ a, LoggedScriptOf allowed (f a) (g a)) :
    LoggedScriptOf allowed (x >>= f) (y >>= g) := by
  change ScriptOf allowed (LoggedT.andThen x f) (LoggedT.andThen y g)
  unfold LoggedT.andThen
  refine ScriptOf.bind hx fun a => ?_
  cases a.result with
  | error e => exact ScriptOf.done _
  | ok v => exact ScriptOf.bind (hf v) fun b => ScriptOf.done _

theorem mapError {x : LoggedT ε Script α} {y : LoggedT ε (StateM FileTree) α} {f : ε → ε'}
    (hx : LoggedScriptOf allowed x y) : LoggedScriptOf allowed (x.mapError f) (y.mapError f) :=
  ScriptOf.bind hx fun _ => ScriptOf.done _

theorem lift {x : Script α} {y : StateM FileTree α} (hx : ScriptOf allowed x y) :
    LoggedScriptOf allowed (LoggedT.lift x : LoggedT ε Script α) (LoggedT.lift y) :=
  ScriptOf.bind hx fun _ => ScriptOf.done _

theorem orFail {x : Script (Except ε' α)} {y : StateM FileTree (Except ε' α)} {f : ε' → ε}
    (hx : ScriptOf allowed x y) :
    LoggedScriptOf allowed (LoggedT.orFail f x : LoggedT ε Script α) (LoggedT.orFail f y) :=
  ScriptOf.bind hx fun _ => ScriptOf.done _

end LoggedScriptOf

end Kfx
