import Kfx.Proofs.Grammar.Run
import Kfx.Proofs.Grammar.Terminals

/-!
# What the grammar sees of a source

It sees the tokens in order, with some blocks of raw text in between. Which text is read as a block
of raw text is left to the grammar.
-/
namespace Kfx

namespace Grammar

/-- A token without its place, or a block of raw text without its braces. -/
inductive Piece
  | token (l : Lexeme)
  | raw (text : String)
  deriving DecidableEq

namespace Piece

abbrev symbol (y : Symbol) : Piece := token (.symbol y)

abbrev word (w : String) : Piece := token (.word w)

abbrev number (l : Number.Literal) : Piece := token (.number l)

end Piece

variable {S : Type} [TokenSource S]

/-- A source of tokens starts with a piece, and what is behind it. -/
inductive Gives : S → Piece → S → Prop
  | token {s s' l pos} (h : TokenSource.next s = (.ok ⟨l, pos⟩, s')) : Gives s (.token l) s'
  | raw {s s' text pos} (h : TokenSource.capture s = (.ok ⟨text, pos⟩, s')) : Gives s (.raw text) s'

/-- The pieces from one place of a source to another. -/
inductive Reads : S → List Piece → S → Prop
  | nil {s} : Reads s [] s
  | cons {s s₁ s' x ps} (first : Gives s x s₁) (rest : Reads s₁ ps s') : Reads s (x :: ps) s'

/-- The source goes on with a token of a certain sort. -/
def Ready (s : S) (sort : Lexeme → Prop) : Prop :=
  ∃ l s', Gives s (.token l) s' ∧ sort l

/-- What is behind some pieces, if the source starts with them. -/
def follow : List Piece → S → Option S
  | [], s => some s
  | .token l :: ps, s =>
    match TokenSource.next s with
    | (.ok t, s') => if t.lexeme = l then follow ps s' else none
    | (.error _, _) => none
  | .raw text :: ps, s =>
    match TokenSource.capture s with
    | (.ok b, s') => if b.text = text then follow ps s' else none
    | (.error _, _) => none

variable {s s' : S} {ps qs : List Piece} {x : Piece}

/-- Pieces that can be followed are read. -/
theorem reads_of_follow (h : follow ps s = some s') : Reads s ps s' := by
  fun_induction follow ps s with
  | case1 s =>
    cases h
    exact .nil
  | case2 s ps t s₁ hnext ih => exact .cons (.token hnext) (ih h)
  | case3 | case4 => cases h
  | case5 s ps b s₁ hcapture ih => exact .cons (.raw hcapture) (ih h)
  | case6 | case7 => cases h

theorem gives_of_next {t : Token} (h : TokenSource.next s = (.ok t, s')) :
    Gives s (.token t.lexeme) s' :=
  .token h

@[simp] theorem reads_nil : Reads s [] s' ↔ s = s' := by
  constructor
  · intro h
    cases h
    rfl
  · rintro rfl
    exact .nil

@[simp] theorem reads_cons :
    Reads s (x :: ps) s' ↔ ∃ s₁, Gives s x s₁ ∧ Reads s₁ ps s' := by
  constructor
  · intro h
    cases h with
    | cons first rest => exact ⟨_, first, rest⟩
  · rintro ⟨s₁, first, rest⟩
    exact .cons first rest

@[simp] theorem reads_append :
    Reads s (ps ++ qs) s' ↔ ∃ s₁, Reads s ps s₁ ∧ Reads s₁ qs s' := by
  induction ps generalizing s with
  | nil => simp
  | cons x ps ih =>
    simp only [List.cons_append, reads_cons, ih]
    constructor
    · rintro ⟨s₁, first, s₂, hps, hqs⟩
      exact ⟨s₂, ⟨s₁, first, hps⟩, hqs⟩
    · rintro ⟨s₂, ⟨s₁, first, hps⟩, hqs⟩
      exact ⟨s₁, first, s₂, hps, hqs⟩

theorem Reads.append {s₁ : S} (h : Reads s ps s₁) (h' : Reads s₁ qs s') :
    Reads s (ps ++ qs) s' :=
  reads_append.mpr ⟨s₁, h, h'⟩

theorem reads_single : Reads s [x] s' ↔ Gives s x s' := by
  simp

theorem Reads.single (h : Gives s x s') : Reads s [x] s' :=
  reads_single.mpr h

theorem Ready.imp {sort sort' : Lexeme → Prop} (h : Ready s sort)
    (himp : ∀ l, sort l → sort' l) : Ready s sort' := by
  obtain ⟨l, s₁, hgives, hsort⟩ := h
  exact ⟨l, s₁, hgives, himp l hsort⟩

theorem Gives.next_eq {l : Lexeme} (h : Gives s (.token l) s') :
    ∃ pos, TokenSource.next s = (.ok ⟨l, pos⟩, s') := by
  obtain ⟨hnext⟩ := h
  exact ⟨_, hnext⟩

theorem Gives.capture_eq {text : String} (h : Gives s (.raw text) s') :
    ∃ pos, TokenSource.capture s = (.ok ⟨text, pos⟩, s') := by
  cases h with
  | raw hcapture => exact ⟨_, hcapture⟩

open Kfx.Grammar.Parser

@[simp] theorem run_expectSymbol_eq_ok {y : Symbol} {t : Token} :
    (expectSymbol y).run s = .ok (t, s') ↔
      ∃ pos, t = ⟨.symbol y, pos⟩ ∧ TokenSource.next s = (.ok ⟨.symbol y, pos⟩, s') := by
  simp only [expectSymbol, run_bind_eq_ok, run_token_eq_ok]
  constructor
  · rintro ⟨⟨l, pos⟩, s₁, hnext, h⟩
    split at h
    · next hl =>
      cases h
      cases hl
      exact ⟨pos, rfl, hnext⟩
    · cases h
  · rintro ⟨pos, rfl, hnext⟩
    exact ⟨_, s', hnext, by simp⟩

@[simp] theorem run_expectWord_eq_ok {w : String} {pos : Pos} :
    expectWord.run s = .ok ((w, pos), s') ↔ TokenSource.next s = (.ok ⟨.word w, pos⟩, s') := by
  simp only [expectWord, run_bind_eq_ok, run_token_eq_ok]
  constructor
  · rintro ⟨⟨l, pos'⟩, s₁, hnext, h⟩
    split at h
    · next w' hl =>
      cases h
      cases hl
      exact hnext
    · cases h
  · intro hnext
    exact ⟨_, s', hnext, by simp⟩

@[simp] theorem run_expectKeyword_eq_ok {keyword : String} {u : Unit} :
    (expectKeyword keyword).run s = .ok (u, s') ↔ Gives s (.word keyword) s' := by
  simp only [expectKeyword, run_bind_eq_ok, run_token_eq_ok]
  constructor
  · rintro ⟨⟨l, pos⟩, s₁, hnext, h⟩
    by_cases hl : l = .word keyword
    · subst hl
      simp at h
      rw [h] at hnext
      exact .token hnext
    · simp [hl] at h
  · rintro ⟨hnext⟩
    exact ⟨_, s', hnext, by simp⟩

@[simp] theorem run_expectName_eq_ok {name : String} :
    expectName.run s = .ok (name, s') ↔
      ∃ l, IsName l name ∧ Gives s (.token l) s' := by
  simp only [expectName, run_bind_eq_ok, run_token_eq_ok]
  constructor
  · rintro ⟨⟨l, pos⟩, s₁, hnext, h⟩
    split at h
    · next name' hname =>
      cases h
      exact ⟨l, nameOf?_eq_some_iff.mp hname, .token hnext⟩
    · cases h
  · rintro ⟨l, hname, ⟨hnext⟩⟩
    exact ⟨_, s', hnext, by simp [nameOf?_eq_some_iff.mpr hname]⟩

/-- A count is read where a literal that denotes one is next. -/
@[simp] theorem run_expectCount_eq_ok {what : String} {n : UInt32} :
    (expectCount what).run s = .ok (n, s') ↔
      ∃ l, IsCount l n ∧ Gives s (.number l) s' := by
  simp only [expectCount, run_bind_eq_ok, run_token_eq_ok]
  constructor
  · rintro ⟨⟨l, pos⟩, s₁, hnext, h⟩
    split at h
    · next literal hl =>
      split at h
      · next n' hn =>
        cases h
        cases hl
        exact ⟨literal, toCount?_eq_some_iff.mp hn, .token hnext⟩
      · cases h
    · cases h
  · rintro ⟨l, hn, ⟨hnext⟩⟩
    exact ⟨_, s', hnext, by simp [toCount?_eq_some_iff.mpr hn]⟩

@[simp] theorem run_expectNumber_eq_ok {what : String} {x : Number.Double} :
    (expectNumber what).run s = .ok (x, s') ↔
      ∃ l, l.value = x ∧ Gives s (.number l) s' := by
  simp only [expectNumber, run_bind_eq_ok, run_token_eq_ok]
  constructor
  · rintro ⟨⟨l, pos⟩, s₁, hnext, h⟩
    split at h
    · next literal hl =>
      cases h
      cases hl
      exact ⟨literal, rfl, .token hnext⟩
    · cases h
  · rintro ⟨l, rfl, ⟨hnext⟩⟩
    exact ⟨_, s', hnext, by simp⟩

@[simp] theorem run_expectFrom_eq_ok {α : Type} {what : String} {table : String → Option α}
    {a : α} :
    (expectFrom what table).run s = .ok (a, s') ↔
      ∃ w, table w = some a ∧ Gives s (.word w) s' := by
  simp only [expectFrom, run_bind_eq_ok]
  constructor
  · rintro ⟨⟨w, pos⟩, s₁, hword, h⟩
    split at h
    · next a' ha =>
      cases h
      exact ⟨w, ha, .token (run_expectWord_eq_ok.mp hword)⟩
    · cases h
  · rintro ⟨w, ha, ⟨hnext⟩⟩
    exact ⟨_, s', run_expectWord_eq_ok.mpr hnext, by simp [ha]⟩

/-- Eating succeeds with the symbol taken, or with nothing taken before a token that is another. -/
theorem run_eat_eq_ok {y : Symbol} {taken : Bool} :
    (eat y).run s = .ok (taken, s') ↔
      taken = true ∧ Gives s (.symbol y) s' ∨
        taken = false ∧ s' = s ∧ Ready s (· ≠ .symbol y) := by
  rw [run_eat]
  constructor
  · intro h
    split at h
    · next t s₁ hnext =>
      have hgives := gives_of_next hnext
      split at h
      · next hl =>
        cases h
        rw [hl] at hgives
        exact .inl ⟨rfl, hgives⟩
      · next hl =>
        cases h
        exact .inr ⟨rfl, rfl, t.lexeme, s₁, hgives, hl⟩
    · cases h
  · rintro (⟨rfl, ⟨hnext⟩⟩ | ⟨rfl, rfl, l, s₁, ⟨hnext⟩, hl⟩)
    · simp [hnext]
    · simp [hnext, hl]

end Grammar

end Kfx
