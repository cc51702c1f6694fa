import Kfx.Proofs.Grammar.Integers
import Kfx.Proofs.Grammar.Simulation

/-!
# Data types as they are written

The text of a type is read back as that type, wherever a type may stand: as the type of a field of a
buffer and as the format of an attribute. All of the text is taken and nothing behind it.
-/
namespace Kfx

theorem Lexeme.spells_word {w : String} (hstart : w.toList.head?.any Scan.isWordStart = true)
    (hchars : w.toList.all Scan.isWordChar = true) : (Lexeme.word w).Spells w.toList := by
  cases hw : w.toList with
  | nil =>
    rw [hw] at hstart
    cases hstart
  | cons c cs =>
    rw [hw] at hstart hchars
    have hc : c.isAlpha = true ∨ c = '_' := by simpa [Scan.isWordStart] using hstart
    have hcs : ∀ d ∈ cs, d.isAlphanum = true ∨ d = '_' := by
      intro d hd
      have hword := List.all_eq_true.mp hchars d (List.mem_cons_of_mem c hd)
      simpa [Scan.isWordChar] using hword
    have hspells := Lexeme.Spells.word hc hcs
    rwa [← hw, String.ofList_toList, hw] at hspells

theorem DataKind.spells_keyword (kind : DataKind) :
    (Lexeme.word kind.keyword).Spells kind.keyword.toList := by
  apply Lexeme.spells_word
  · cases kind <;> rfl
  · cases kind <;> rfl

namespace DataType

/-- What stands behind the keyword of a type: nothing, empty brackets or a number in brackets. -/
def suffix (t : DataType) : List Char :=
  if t.count = 1 then []
  else if t.count = 0 then ['[', ']']
  else '[' :: (Nat.toDigits 10 t.count.toNat ++ [']'])

theorem toList_text (t : DataType) : t.text.toList = t.kind.keyword.toList ++ t.suffix := by
  unfold text suffix
  split
  · simp
  · split <;> simp

end DataType

def countLiteral (n : UInt32) : Number.Literal :=
  ⟨false, Nat.toDigits 10 n.toNat, none⟩

theorem isCount_countLiteral (n : UInt32) : Grammar.IsCount (countLiteral n) n := by
  refine ⟨rfl, ?_⟩
  simp [countLiteral]

theorem spells_countLiteral (n : UInt32) :
    (Lexeme.number (countLiteral n)).Spells (Nat.toDigits 10 n.toNat) := by
  have htext : (countLiteral n).text = Nat.toDigits 10 n.toNat := by
    simp [countLiteral, Number.Literal.text]
  rw [← htext]
  refine .number Nat.toDigits_ne_nil ?_
  intro d hd
  have hdigit : d ∈ Nat.toDigits 10 n.toNat := by simpa [countLiteral] using hd
  exact Nat.isDigit_of_mem_toDigits (by decide) (by decide) hdigit

namespace Stream

open Grammar

/-- A token behind a gap, the place counted from one that stands before both. -/
theorem gives_of_spells {w r rest : List Char} {l : Lexeme} (p : Pos) (front : List Char)
    (hw : IsGap false w) (hl : l.Spells r) (hend : l.EndsBefore rest) :
    Gives (⟨w ++ (r ++ rest), p.after front, false⟩ : Stream) (.token l)
      ⟨rest, p.after (front ++ (w ++ r)), false⟩ := by
  have hnext := next_of_spells (s := ⟨w ++ (r ++ rest), p.after front, false⟩) rfl rfl hw hl hend
  rw [Pos.after_append p front]
  exact .token hnext

end Stream

namespace Grammar

open Kfx.Grammar.Parser

section

variable {w rest : List Char}

theorem gives_symbol {p : Pos} {front : List Char} (y : Symbol) :
    Gives (⟨y.char :: rest, p.after front, false⟩ : Stream) (.symbol y)
      ⟨rest, p.after (front ++ [y.char]), false⟩ :=
  Stream.gives_of_spells p front .nil (.symbol y) trivial

/-- A keyword does not go on with a bracket. -/
theorem gives_keyword (p : Pos) (front : List Char) (hw : IsGap false w) (kind : DataKind)
    (rest : List Char) : Gives
      (⟨w ++ (kind.keyword.toList ++ '[' :: rest), p.after front, false⟩ : Stream)
      (.word kind.keyword)
      ⟨'[' :: rest, p.after (front ++ (w ++ kind.keyword.toList)), false⟩ := by
  refine Stream.gives_of_spells p front hw kind.spells_keyword ?_
  rintro c ⟨⟩
  decide

/-- The text of a type is made of the pieces of that type. -/
theorem reads_text (p : Pos) (front : List Char) (hw : IsGap false w) (t : DataType)
    (hend : t.count = 1 → (Lexeme.word t.kind.keyword).EndsBefore rest) :
    ∃ ps, IsDataType (.word t.kind.keyword :: ps) t ∧
      Reads (⟨w ++ (t.text.toList ++ rest), p.after front, false⟩ : Stream)
        (.word t.kind.keyword :: ps) ⟨rest, p.after (front ++ (w ++ t.text.toList)), false⟩ := by
  have hkind : (t.kind.keyword, t.kind) ∈ dataKinds := by cases t.kind <;> decide
  rw [t.toList_text]
  obtain ⟨kind, count⟩ := t
  by_cases hone : count = 1
  · subst hone
    have hgives := Stream.gives_of_spells p front hw kind.spells_keyword (hend rfl)
    exact ⟨[], .single hkind, .single (by simpa [DataType.suffix] using hgives)⟩
  · have hfirst := gives_keyword p front hw kind
    by_cases hzero : count = 0
    · subst hzero
      have hreads := Reads.cons (hfirst (']' :: rest))
        (.cons (gives_symbol .leftBracket) (.single (gives_symbol .rightBracket)))
      exact ⟨_, .unsized hkind, by simpa [DataType.suffix, Symbol.char] using hreads⟩
    · have hdigits : (Lexeme.number (countLiteral count)).EndsBefore (']' :: rest) := by
        rintro c ⟨⟩
        exact ⟨by decide, fun _ => by decide⟩
      have hreads := Reads.cons (hfirst _)
        (.cons (gives_symbol .leftBracket)
          (.cons (Stream.gives_of_spells _ _ .nil (spells_countLiteral count) hdigits)
            (.single (gives_symbol .rightBracket))))
      refine ⟨_, .sized hkind (isCount_countLiteral count), ?_⟩
      simpa [DataType.suffix, hone, hzero, Symbol.char] using hreads

end

/-- How the type `t` and the name behind it are read: from `s`, where the type is written, through
`s₁`, where the name is written, to `s₂`. -/
structure ReadsType {S : Type} [TokenSource S] (t : DataType) (name : String) (s s₁ s₂ : S) :
    Prop where
  /-- The text of the type is taken and nothing behind it. -/
  type : (token >>= dataType).run s = .ok (t, s₁)
  word : ∃ pos, expectWord.run s₁ = .ok ((name, pos), s₂)
  /-- As the type of a field of a buffer, for some stages or for all. -/
  field : ∀ s₃, Gives s₂ (.symbol .semicolon) s₃ →
    (token >>= bufferField).run s = .ok (⟨t, name, none⟩, s₃)
  stagedField : ∀ ps ms s₃, IsStages ps ms → Reads s₂ (.word "Stage" :: .symbol .leftParen ::
      (ps ++ [.symbol .rightParen, .symbol .semicolon])) s₃ →
    (token >>= bufferField).run s = .ok (⟨t, name, some (ms.foldl .union .empty)⟩, s₃)
  /-- As the format of an attribute. -/
  vertexAttribute : ∀ l₁ l₂ l₃ binding location offset s₃, IsCount l₁ binding →
    IsCount l₂ location → IsCount l₃ offset →
    Reads s₂ [.number l₁, .number l₂, .number l₃] s₃ → ∀ layout pos,
      (vertexEntry layout "Attribute" pos).run s =
        .ok (layout.add (.vertexAttribute ⟨t, binding, location, offset⟩), s₃)

/-- The pieces of a type and a name behind them are read as that type and that name. -/
theorem readsType_of_reads {S : Type} [TokenSource S] {t : DataType} {w name : String}
    {ps : List Piece} {s s₁ s₂ : S}
    (ht : IsDataType (.word w :: ps) t) (hreads : Reads s (.word w :: ps) s₁)
    (hword : Gives s₁ (.word name) s₂) : ReadsType t name s s₁ s₂ := by
  obtain ⟨s₀, ⟨hfirst⟩, hrest⟩ := reads_cons.mp hreads
  have hbehind {qs : List Piece} {s₃ : S} (h : Reads s₂ qs s₃) :
      Reads s₀ (ps ++ .word name :: qs) s₃ := hrest.append (.cons hword h)
  refine ⟨?type, ?word, ?field, ?stagedField, ?vertexAttribute⟩
  case type =>
    exact run_bind_eq_ok.mpr ⟨_, s₀, run_token_eq_ok.mpr hfirst,
      (run_dataType_of_word hword).mpr ⟨ps, hrest, ht⟩⟩
  case word =>
    obtain ⟨pos, hname⟩ := hword.next_eq
    exact ⟨pos, run_expectWord_eq_ok.mpr hname⟩
  case field =>
    intro s₃ hsemicolon
    exact run_bind_eq_ok.mpr ⟨_, s₀, run_token_eq_ok.mpr hfirst,
      run_bufferField_eq_ok.mpr ⟨_, hbehind (.single hsemicolon), .plain ht⟩⟩
  case stagedField =>
    intro qs ms s₃ hstages hlist
    exact run_bind_eq_ok.mpr ⟨_, s₀, run_token_eq_ok.mpr hfirst,
      run_bufferField_eq_ok.mpr ⟨_, hbehind hlist, .staged ht hstages⟩⟩
  case vertexAttribute =>
    intro l₁ l₂ l₃ binding location offset s₃ h₁ h₂ h₃ hnumbers layout pos
    simp only [reads_cons, reads_nil] at hnumbers
    obtain ⟨s₄, hl₁, s₅, hl₂, s₆, hl₃, rfl⟩ := hnumbers
    obtain ⟨_, hname⟩ := hword.next_eq
    simp only [vertexEntry, run_bind_eq_ok, run_token_eq_ok, run_expectCount_eq_ok]
    exact ⟨_, s₀, hfirst, _, s₁, (run_dataType_of_word hword).mpr ⟨ps, hrest, ht⟩, _, s₂,
      run_expectWord_eq_ok.mpr hname, _, s₄, ⟨_, h₁, hl₁⟩, _, s₅, ⟨_, h₂, hl₂⟩, _, s₆,
      ⟨_, h₃, hl₃⟩, rfl⟩

/-- The text of a data type is read back as that type. Wherever it is written with a name behind it,
a gap between the two if the text is a bare keyword, the parser for types takes exactly the text and
leaves the lexer before the gap and the name; so do the parsers for fields and for attributes. -/
theorem printed_type_reads_back (t : DataType) (name : String)
    (hname : (Lexeme.word name).Spells name.toList) (source : String) (lexer : Lexer source)
    (w v rest : List Char) (hlexer : lexer.ended = false)
    (hahead : lexer.Ahead (w ++ (t.text.toList ++ (v ++ (name.toList ++ rest)))))
    (hw : IsGap false w) (hv : IsGap false v) (hgap : t.count = 1 → v ≠ [])
    (hend : (Lexeme.word name).EndsBefore rest) :
    ∃ lexer₁ lexer₂, lexer.Behind (w ++ t.text.toList) (v ++ (name.toList ++ rest)) lexer₁ ∧
      lexer.Behind (w ++ t.text.toList ++ (v ++ name.toList)) rest lexer₂ ∧
      ReadsType t name lexer lexer₁ lexer₂ := by
  have hbare (hone : t.count = 1) :
      (Lexeme.word t.kind.keyword).EndsBefore (v ++ (name.toList ++ rest)) :=
    Lexeme.endsBefore_of_gap hv (fun hnil => absurd hnil (hgap hone)) _
  have hstream := hahead.tracks
  rw [hlexer] at hstream
  have halike := (answersAlike_tracks source).flip
  obtain ⟨ps, htype, hreads⟩ := reads_text lexer.pos [] hw t hbare
  obtain ⟨lexer₁, hreads', hstream₁⟩ := hreads.transfer halike hstream
  have hword := Stream.gives_of_spells lexer.pos (w ++ t.text.toList) hv hname hend
  obtain ⟨lexer₂, hword', hstream₂⟩ := hword.transfer halike hstream₁
  rw [← hlexer] at hstream₁ hstream₂
  exact ⟨lexer₁, lexer₂, hstream₁.behind, hstream₂.behind,
    readsType_of_reads htype hreads' hword'⟩

def longArray : DataType := ⟨.float4, 4294967295⟩

theorem longArray_reads_back :
    longArray.text = "Float4[4294967295]" ∧
    ∃ lexer, (token >>= bufferField).run (Lexer.start "\tFloat4[4294967295]x;") =
      .ok (⟨longArray, "x", none⟩, lexer) := by
  have htab : IsGap false ['\t'] := .blank (by simp) .nil
  have hname : (Lexeme.word "x").Spells ['x'] := @Lexeme.Spells.word 'x' [] (by decide) (by simp)
  obtain ⟨_, _, _, hbehind, hreads⟩ := printed_type_reads_back longArray "x" hname
    "\tFloat4[4294967295]x;" (.start _) ['\t'] [] [';'] rfl ⟨[], rfl, rfl⟩ htab .nil
    (fun hone => absurd hone (by decide)) (by simp [Lexeme.EndsBefore])
  obtain ⟨lexer, hsemicolon, _⟩ :=
    Lexer.next_of_spells hbehind.ended_eq hbehind.ahead .nil (.symbol .semicolon) trivial
  exact ⟨rfl, lexer, hreads.field _ (.token hsemicolon)⟩

end Grammar

end Kfx
