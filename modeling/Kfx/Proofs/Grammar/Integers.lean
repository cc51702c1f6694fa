import Kfx.Proofs.Grammar.Recognition.Layout
import Kfx.Proofs.Number.Integer
import Kfx.Proofs.Token.Spacing

/-!
# Integers in a source

A number is a double by the time a parser sees it, yet a count is accepted exactly when the number
as it is written denotes an integer that fits into thirty-two bits, and it is that integer. Every
other number is refused where it stands.
-/
namespace Kfx.Grammar

open Kfx.Grammar.Parser

variable {S : Type} [TokenSource S]

section

variable {s s' : S} {l : Number.Literal} {pos : Pos}

theorem run_expectCount_number (hnext : TokenSource.next s = (.ok ⟨.number l, pos⟩, s'))
    (what : String) : (expectCount what).run s =
      match l.toCount? with
      | some n => .ok (n, s')
      | none => .error (.badCount what ⟨.number l, pos⟩) := by
  rw [expectCount, run_bind, run_token_eq_ok.mpr hnext]
  simp only [Except.bind]
  cases l.toCount? <;> rfl

theorem run_arrayLength_number : (arrayLength ⟨.number l, pos⟩).run s =
    if l.value.isNegative then .error (.negativeLength l.value pos)
    else
      match l.toCount? with
      | none => .error (.badCount "array size" ⟨.number l, pos⟩)
      | some n => (token >>= fun close => do
          unless close.lexeme = .symbol .rightBracket do fail (.openArray close)
          return n).run s := by
  simp only [arrayLength]
  split
  · rfl
  · cases l.toCount? <;> rfl

/-- Behind the opening bracket of an array type comes its length. -/
theorem run_dataType_array {s₀ : S} {w : String} {kind : DataKind} {p : Pos} {t : Token}
    (hkind : DataKind.ofKeyword? w = some kind) (hopen : Gives s₀ (.symbol .leftBracket) s)
    (hnext : TokenSource.next s = (.ok t, s')) : (dataType ⟨.word w, p⟩).run s₀ =
      ((arrayLength t).run s').map fun x => (⟨kind, x.1⟩, x.2) := by
  have heat : (eat .leftBracket).run s₀ = .ok (true, s) := run_eat_eq_ok.mpr (.inl ⟨rfl, hopen⟩)
  have htoken : token.run s = .ok (t, s') := run_token_eq_ok.mpr hnext
  simp only [dataType, hkind, run_bind, heat, Except.bind, if_true, htoken]
  cases (arrayLength t).run s' <;> rfl

end

/-- How the number `l` is read, the token `t` between `s` and `s'`. -/
structure ReadsInteger (l : Number.Literal) (t : Token) (s s' : S) : Prop where
  /-- As a count it is accepted exactly when it denotes one, and as that one. -/
  count : ∀ what (n : UInt32), (expectCount what).run s = .ok (n, s') ↔ l.Denotes n.toNat
  badCount : (∀ n : UInt32, ¬ l.Denotes n.toNat) →
    ∀ what, (expectCount what).run s = .error (.badCount what t)
  /-- So is the length of an array type, with the closing bracket behind it. -/
  length : ∀ w kind p s₀, DataKind.ofKeyword? w = some kind → Gives s₀ (.symbol .leftBracket) s →
    ∀ (n : UInt32) s₁, (dataType ⟨.word w, p⟩).run s₀ = .ok (⟨kind, n⟩, s₁) ↔
      l.Denotes n.toNat ∧ Gives s' (.symbol .rightBracket) s₁
  /-- Any other length is refused, one below zero by its own error. A length with a point may be so
  near to zero that it is not below zero as a double. -/
  badLength : (∀ n : UInt32, ¬ l.Denotes n.toNat) → ∀ w kind p s₀,
    DataKind.ofKeyword? w = some kind → Gives s₀ (.symbol .leftBracket) s →
      (l.BelowZero → (dataType ⟨.word w, p⟩).run s₀ = .error (.negativeLength l.value t.pos)) ∧
      (¬ l.BelowZero → (dataType ⟨.word w, p⟩).run s₀ = .error (.badCount "array size" t))
  belowZero : ∀ i, l.Denotes i → i < 0 → l.BelowZero

/-- A number that is next is read as the integer it denotes, or refused. -/
theorem readsInteger_of_next {s s' : S} {l : Number.Literal} {pos : Pos}
    (hnext : TokenSource.next s = (.ok ⟨.number l, pos⟩, s')) :
    ReadsInteger l ⟨.number l, pos⟩ s s' := by
  refine ⟨?count, ?badCount, ?length, ?badLength, fun _ => Number.Literal.Denotes.belowZero⟩
  case count =>
    intro what n
    rw [run_expectCount_number hnext, ← Number.Literal.toCount?_eq_some_iff]
    cases l.toCount? <;> simp
  case badCount =>
    intro hnone what
    rw [run_expectCount_number hnext, Number.Literal.toCount?_eq_none_iff.mpr hnone]
  case length =>
    intro w kind p s₀ hkind hopen n s₁
    rw [run_dataType_array hkind hopen hnext]
    constructor
    · intro h
      cases hlength : (arrayLength ⟨.number l, pos⟩).run s' with
      | error e => rw [hlength] at h; cases h
      | ok x =>
        rw [hlength] at h
        cases h
        rcases run_arrayLength_eq_ok.mp hlength with ⟨hbracket, _⟩ | ⟨_, hnumber, hn, hclose⟩
        · cases hbracket
        · cases hnumber
          exact ⟨hn, hclose⟩
    · rintro ⟨hn, hclose⟩
      rw [run_arrayLength_eq_ok.mpr (.inr ⟨l, rfl, hn, hclose⟩)]
      rfl
  case badLength =>
    intro hnone w kind p s₀ hkind hopen
    rw [run_dataType_array hkind hopen hnext, run_arrayLength_number,
      Number.Literal.toCount?_eq_none_iff.mpr hnone, ← Number.Literal.isNegative_value]
    constructor
    · intro hbelow
      rw [if_pos hbelow]
      rfl
    · intro hbelow
      rw [if_neg hbelow]
      rfl

/-- Integers survive the doubles they are read through. A number of any length, wherever it is
written in a source, is accepted as a count or as the length of an array exactly when it has no
point and denotes an integer that fits into thirty-two bits, and it is read as that integer; every
other number is refused. -/
theorem integers_survive_doubles (l : Number.Literal) (text : List Char)
    (hl : (Lexeme.number l).Spells text) (source : String) (lexer : Lexer source)
    (w rest : List Char) (hlexer : lexer.ended = false) (hahead : lexer.Ahead (w ++ (text ++ rest)))
    (hw : IsGap false w) (hend : (Lexeme.number l).EndsBefore rest) :
    ∃ lexer', lexer.Behind (w ++ text) rest lexer' ∧
      ReadsInteger l ⟨.number l, lexer.pos.after w⟩ lexer lexer' := by
  obtain ⟨lexer', hnext, hbehind⟩ := Lexer.next_of_spells hlexer hahead hw hl hend
  exact ⟨lexer', hbehind, readsInteger_of_next hnext⟩

/-- A number beyond the range of a sixty-four bit integer. -/
def hugeLiteral : Number.Literal := ⟨false, "18446744073709551617".toList, none⟩

/-- A zero with a sign, and another zero before it. -/
def minusZero : Number.Literal := ⟨true, "00".toList, none⟩

theorem zero_and_hugeLiteral_read :
    (expectCount "Set").run (Lexer.start " 18446744073709551617)") =
      .error (.badCount "Set" ⟨.number hugeLiteral, ⟨1, 2⟩⟩) ∧
    ∃ lexer', (dataType ⟨.word "UInt", ⟨1, 1⟩⟩).run (⟨4, ⟨1, 5⟩, false⟩ : Lexer "UInt[-00]") =
      .ok (⟨.uint, 0⟩, lexer') := by
  have hblank : IsGap false [' '] := .blank (by simp) .nil
  obtain ⟨_, _, hhuge⟩ := integers_survive_doubles hugeLiteral _
    (.number (by decide) (by simp [hugeLiteral])) " 18446744073709551617)" (.start _) [' '] [')']
    rfl ⟨[], rfl, rfl⟩ hblank (by simp [Lexeme.EndsBefore])
  obtain ⟨_, hbehind, hzero⟩ := integers_survive_doubles minusZero _
    (.number (by decide) (by simp [minusZero])) "UInt[-00]" ⟨5, ⟨1, 6⟩, false⟩ [] [']'] rfl
    ⟨"UInt[".toList, rfl, rfl⟩ .nil (by simp [Lexeme.EndsBefore])
  have hnone : ∀ n : UInt32, ¬ hugeLiteral.Denotes n.toNat := by
    rintro n ⟨_, hn⟩
    have hrange := n.toNat_lt_size
    have hvalue : Nat.ofDigitChars 10 hugeLiteral.whole 0 = 18446744073709551617 := by decide
    rw [hvalue] at hn
    simp [hugeLiteral, UInt32.size] at hn hrange
    omega
  have hopen : (⟨4, ⟨1, 5⟩, false⟩ : Lexer "UInt[-00]").next =
      (.ok ⟨.symbol .leftBracket, ⟨1, 5⟩⟩, ⟨5, ⟨1, 6⟩, false⟩) := by decide +kernel
  obtain ⟨lexer', hclose, _⟩ :=
    Lexer.next_of_spells hbehind.ended_eq hbehind.ahead .nil (.symbol .rightBracket) trivial
  have hread := hzero.length "UInt" .uint ⟨1, 1⟩ _ rfl (.token hopen) 0 lexer'
  exact ⟨hhuge.badCount hnone "Set", lexer', hread.mpr ⟨⟨rfl, rfl⟩, .token hclose⟩⟩

end Kfx.Grammar
