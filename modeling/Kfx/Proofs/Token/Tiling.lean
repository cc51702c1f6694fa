import Mathlib.Logic.Function.Iterate
import Kfx.Proofs.Source.Position
import Kfx.Proofs.Token.Continuation
import Kfx.Proofs.Token.Simulation

/-!
# Tokens cover their source

The tokens of a source, with the text between them, are the whole source. Every token covers the
text it says it was read from, starts where it says it starts, and is as long as it can be; between
tokens there are only blanks and comments.
-/
namespace Kfx

/-- Text between two tokens or, `atEnd`, behind the last one: blanks, comments through their line
feed, and block comments, which are closed where they first can be. Only at the end of the source a
comment may lack its line feed. -/
inductive IsGap (atEnd : Bool) : List Char → Prop
  | nil : IsGap atEnd []
  | blank {c w} (hc : c = ' ' ∨ c = '\t' ∨ c = '\r' ∨ c = '\n') (hw : IsGap atEnd w) :
    IsGap atEnd (c :: w)
  | line {body w} (hbody : '\n' ∉ body) (hw : IsGap atEnd w) :
    IsGap atEnd ('/' :: '/' :: (body ++ '\n' :: w))
  | block {body w} (hbody : ¬ ['*', '/'] <:+: body) (hw : IsGap atEnd w) :
    IsGap atEnd ('/' :: '*' :: (body ++ '*' :: '/' :: w))
  | lastLine {body} (hend : atEnd = true) (hbody : '\n' ∉ body) :
    IsGap atEnd ('/' :: '/' :: body)

/-- Text that can stand between quotes: no line feed, and a quote only behind a backslash that is
not itself escaped. -/
inductive IsRaw : List Char → Prop
  | nil : IsRaw []
  | plain {c r} (hquote : c ≠ '"') (hfeed : c ≠ '\n') (hslash : c ≠ '\\') (hr : IsRaw r) :
    IsRaw (c :: r)
  | escaped {c r} (hfeed : c ≠ '\n') (hr : IsRaw r) : IsRaw ('\\' :: c :: r)

/-- How a lexeme is written. -/
inductive Lexeme.Spells : Lexeme → List Char → Prop
  | symbol (s : Symbol) : Spells (.symbol s) [s.char]
  | word {c cs} (hc : c.isAlpha = true ∨ c = '_')
      (hcs : ∀ d ∈ cs, d.isAlphanum = true ∨ d = '_') :
    Spells (.word (String.ofList (c :: cs))) (c :: cs)
  | number {l : Number.Literal} (hwhole : l.whole ≠ [])
      (hdigits : ∀ d ∈ l.whole ++ l.fraction.getD [], d.isDigit = true) :
    Spells (.number l) l.text
  | quoted {raw} (hraw : IsRaw raw) : Spells (.quoted (String.ofList raw)) ('"' :: raw ++ ['"'])

/-- The text behind a lexeme does not go on with it. -/
def Lexeme.EndsBefore : Lexeme → List Char → Prop
  | .word _, rest => ∀ c ∈ rest.head?, ¬ (c.isAlphanum = true ∨ c = '_')
  | .number l, rest => ∀ c ∈ rest.head?, c.isDigit = false ∧ (l.fraction = none → c ≠ '.')
  | _, _ => True

/-- The text `rest`, which stands behind `front`, is made of some tokens and the gaps around them. A
token says where it starts. -/
inductive Tiles : List Char → List Token → List Char → Prop
  | last {front w} (hw : IsGap true w) : Tiles front [] w
  | token {front w r rest l ts} (hw : IsGap false w) (hl : l.Spells r) (hend : l.EndsBefore rest)
      (hrest : Tiles (front ++ w ++ r) ts rest) :
    Tiles front (⟨l, Pos.behind (front ++ w)⟩ :: ts) (w ++ r ++ rest)

namespace Trivia

variable {atEnd : Bool}

/-- What is skipped from inside a comment or outside of one. -/
def Covers (atEnd : Bool) : Mode → List Char → Prop
  | .code, taken => IsGap atEnd taken
  | .line, taken => (∃ body w, taken = body ++ '\n' :: w ∧ '\n' ∉ body ∧ IsGap atEnd w) ∨
      atEnd = true ∧ '\n' ∉ taken
  | .block _, taken => ∃ body w, taken = body ++ '*' :: '/' :: w ∧ ¬ ['*', '/'] <:+: body ∧
      IsGap atEnd w

theorem Covers.ofLine {taken : List Char} (h : Covers atEnd .line taken) :
    IsGap atEnd ('/' :: '/' :: taken) := by
  rcases h with ⟨body, w, rfl, hbody, hw⟩ | ⟨hend, htaken⟩
  · exact .line hbody hw
  · exact .lastLine hend htaken

theorem Covers.ofBlock {p : Pos} {taken : List Char} (h : Covers atEnd (.block p) taken) :
    IsGap atEnd ('/' :: '*' :: taken) := by
  obtain ⟨body, w, rfl, hbody, hw⟩ := h
  exact .block hbody hw

theorem Covers.consLine {c : Char} {taken : List Char} (h : Covers atEnd .line taken)
    (hc : c ≠ '\n') : Covers atEnd .line (c :: taken) := by
  rcases h with ⟨body, w, rfl, hbody, hw⟩ | ⟨hend, htaken⟩
  · exact Or.inl ⟨c :: body, w, rfl, by simp [hbody, Ne.symm hc], hw⟩
  · exact Or.inr ⟨hend, by simp [htaken, Ne.symm hc]⟩

/-- A character joins the comment behind it unless the two would close it. -/
theorem Covers.consBlock {p : Pos} {c : Char} {taken : List Char}
    (h : Covers atEnd (.block p) taken) (hc : ∀ r, c = '*' → taken = '/' :: r → False) :
    Covers atEnd (.block p) (c :: taken) := by
  obtain ⟨body, w, rfl, hbody, hw⟩ := h
  refine ⟨c :: body, w, rfl, ?_, hw⟩
  intro hinfix
  rcases List.infix_cons_iff.mp hinfix with hprefix | hinfix
  · obtain ⟨t, ht⟩ := hprefix
    obtain ⟨hstar, hslash⟩ := List.cons.inj ht
    rw [← hslash] at hc
    exact hc _ hstar.symm rfl
  · exact hbody hinfix

/-- Skipping takes a gap off the front, and its place is behind the gap. -/
theorem skip_covers {m : Mode} {p q : Pos} {cs rest : List Char} (h : skip m p cs = .upTo q rest) :
    ∃ taken, cs = taken ++ rest ∧ q = p.after taken ∧ Covers rest.isEmpty m taken := by
  fun_induction skip m p cs with
  | case1 p =>
    cases h
    exact ⟨[], rfl, rfl, .nil⟩
  | case2 p =>
    cases h
    exact ⟨[], rfl, rfl, Or.inr ⟨rfl, by simp⟩⟩
  | case3 => cases h
  | case4 p r ih =>
    obtain ⟨taken, rfl, rfl, hcovers⟩ := ih h
    exact ⟨'/' :: '/' :: taken, rfl, rfl, hcovers.ofLine⟩
  | case5 p r ih =>
    obtain ⟨taken, rfl, rfl, hcovers⟩ := ih h
    exact ⟨'/' :: '*' :: taken, rfl, rfl, hcovers.ofBlock⟩
  | case6 p c r _ _ hblank ih =>
    obtain ⟨taken, rfl, rfl, hcovers⟩ := ih h
    exact ⟨c :: taken, rfl, rfl, .blank (by simpa [isBlank, or_assoc] using hblank) hcovers⟩
  | case7 p c r _ _ _ =>
    cases h
    exact ⟨[], rfl, rfl, .nil⟩
  | case8 p r ih =>
    obtain ⟨taken, rfl, rfl, hcovers⟩ := ih h
    exact ⟨'\n' :: taken, rfl, rfl, Or.inl ⟨[], taken, rfl, by simp, hcovers⟩⟩
  | case9 p c r hc ih =>
    obtain ⟨taken, rfl, rfl, hcovers⟩ := ih h
    exact ⟨c :: taken, rfl, rfl, hcovers.consLine hc⟩
  | case10 _ p r ih =>
    obtain ⟨taken, rfl, rfl, hcovers⟩ := ih h
    exact ⟨'*' :: '/' :: taken, rfl, rfl, [], taken, rfl, by simp, hcovers⟩
  | case11 _ p c r hclose ih =>
    obtain ⟨taken, rfl, rfl, hcovers⟩ := ih h
    refine ⟨c :: taken, rfl, rfl, hcovers.consBlock ?_⟩
    rintro r' hc rfl
    exact hclose _ hc rfl

end Trivia

namespace Scan

theorem isRaw_quotation {cs : List Char} (h : (quotation cs).closed = true) :
    IsRaw (quotation cs).raw := by
  fun_induction quotation cs with
  | case1 => cases h
  | case2 r => exact .nil
  | case3 r => cases h
  | case4 => cases h
  | case5 r => cases h
  | case6 c r hc ih => exact .escaped hc (ih h)
  | case7 c r hquote hfeed hlast _ hescape ih =>
    have hslash : c ≠ '\\' := by
      intro hc
      cases r with
      | nil => exact hlast hc rfl
      | cons d r => exact hescape d r hc rfl
    exact .plain hquote hfeed hslash (ih h)

/-- Behind the characters of a class comes none of that class. -/
theorem head?_dropWhile {p : Char → Bool} {cs : List Char} :
    ∀ c ∈ (cs.dropWhile p).head?, p c = false := by
  intro c hc
  have hfalse := List.head?_dropWhile_not p cs
  rw [Option.mem_def.mp hc] at hfalse
  simpa using hfalse

/-- A number is written with digits, and no digit and no first point is left behind it. -/
theorem literal_spells (negative : Bool) (d : Char) (r : List Char) (hd : d.isDigit = true) :
    (Lexeme.number (literal negative (d :: r)).1).Spells (literal negative (d :: r)).1.text ∧
      (Lexeme.number (literal negative (d :: r)).1).EndsBefore (literal negative (d :: r)).2 := by
  have hwhole : (d :: r).takeWhile Char.isDigit ≠ [] := by simp [hd]
  have hdigits : ∀ cs : List Char, ∀ c ∈ cs.takeWhile Char.isDigit, c.isDigit = true :=
    fun cs => List.all_eq_true.mp List.all_takeWhile
  unfold literal
  dsimp only
  split
  · next rest hrest =>
    refine ⟨.number hwhole ?_, ?_⟩
    · intro c hc
      rcases List.mem_append.mp hc with hc | hc
      · exact hdigits _ c hc
      · exact hdigits _ c hc
    · intro c hc
      exact ⟨head?_dropWhile c hc, by simp⟩
  · next hpoint =>
    refine ⟨.number hwhole ?_, ?_⟩
    · intro c hc
      rw [Option.getD_none, List.append_nil] at hc
      exact hdigits _ c hc
    · intro c hc
      refine ⟨head?_dropWhile c hc, ?_⟩
      rintro - rfl
      obtain ⟨tail, htail⟩ := List.head?_eq_some_iff.mp (Option.mem_def.mp hc)
      exact hpoint tail htail

theorem char_of_ofChar? {c : Char} {s : Symbol} (h : Symbol.ofChar? c = some s) : s.char = c := by
  simpa using List.find?_some h

/-- What is found is written as it was taken, and does not go on behind that. -/
theorem scan_spells {p : Pos} {cs : List Char} {l : Lexeme} (h : (scan p cs).found = .ok l)
    (hl : l ≠ .endOfInput) : l.Spells (scan p cs).taken ∧ l.EndsBefore (scan p cs).rest := by
  cases cs with
  | nil =>
    cases h
    exact absurd rfl hl
  | cons c r =>
    unfold scan at h ⊢
    dsimp only at h ⊢
    split at h
    · next s hsymbol =>
      cases h
      have hchar := char_of_ofChar? hsymbol
      subst hchar
      exact ⟨.symbol s, trivial⟩
    · split at h
      · next hquote =>
        subst hquote
        rw [if_pos rfl]
        dsimp only at h ⊢
        split at h
        · next hclosed =>
          cases h
          rw [Quotation.taken, if_pos hclosed]
          exact ⟨.quoted (isRaw_quotation hclosed), trivial⟩
        · cases h
      · next hquote =>
        rw [if_neg hquote]
        split at h
        · next hminus =>
          rw [if_pos hminus]
          cases r with
          | nil => cases h
          | cons d r =>
            dsimp only at h ⊢
            split at h
            · next hdigit =>
              rw [if_pos hdigit]
              cases h
              exact literal_spells true d r hdigit
            · cases h
        · next hminus =>
          rw [if_neg hminus]
          split at h
          · next hdigit =>
            rw [if_pos hdigit]
            cases h
            exact literal_spells false c r hdigit
          · next hdigit =>
            rw [if_neg hdigit]
            split at h
            · next hstart =>
              rw [if_pos hstart]
              cases h
              refine ⟨.word (by simpa [isWordStart] using hstart) ?_, ?_⟩
              · intro d hd
                have hword := List.all_eq_true.mp List.all_takeWhile d hd
                simpa [isWordChar] using hword
              · intro d hd
                have hword := head?_dropWhile d hd
                simpa [isWordChar] using hword
            · cases h

end Scan

/-- Some tokens, one call after another, and what is behind them. -/
inductive Yields {S : Type} [TokenSource S] : S → List Token → S → Prop
  | nil {s} : Yields s [] s
  | cons {s s₁ s' t ts} (hnext : TokenSource.next s = (.ok t, s₁)) (ht : t.lexeme ≠ .endOfInput)
      (hrest : Yields s₁ ts s') : Yields s (t :: ts) s'

/-- Related sources give the same tokens. -/
theorem Yields.transfer {S T : Type} [TokenSource S] [TokenSource T] {related : S → T → Prop}
    {s s' : S} {t : T} {ts : List Token} (h : Yields s ts s') (halike : AnswersAlike related)
    (hs : related s t) : ∃ t', Yields t ts t' ∧ related s' t' := by
  induction h generalizing t with
  | nil => exact ⟨t, .nil, hs⟩
  | cons hnext hl _ ih =>
    obtain ⟨t₁, hanswer, hs₁⟩ := halike.next_eq hs hnext
    obtain ⟨t', hrest, hs'⟩ := ih hs₁
    exact ⟨t', .cons hanswer hl hrest, hs'⟩

namespace Stream

variable {s s' : Stream} {front : List Char}

/-- A token off the front of a text that stands behind `front`. -/
theorem next_tile {t : Token} (hpos : s.pos = Pos.behind front) (hnext : s.next = (.ok t, s'))
    (ht : t.lexeme ≠ .endOfInput) :
    ∃ w r, s.rest = w ++ r ++ s'.rest ∧ IsGap false w ∧ t.lexeme.Spells r ∧
      t.lexeme.EndsBefore s'.rest ∧ t.pos = Pos.behind (front ++ w) ∧
      s'.pos = Pos.behind (front ++ w ++ r) := by
  obtain ⟨l, pos⟩ := t
  obtain ⟨_, cs, hskip, hfound, rfl⟩ := next_eq_ok.mp hnext
  obtain ⟨w, hrest, rfl, hcovers⟩ := Trivia.skip_covers hskip
  obtain ⟨hspells, hends⟩ := Scan.scan_spells hfound ht
  have hcs : cs.isEmpty = false := by
    cases cs with
    | nil =>
      cases hfound
      exact absurd rfl ht
    | cons c r => rfl
  rw [hcs] at hcovers
  have hplace : s.pos.after w = Pos.behind (front ++ w) := by
    rw [hpos, ← Pos.after_start, ← Pos.after_start, Pos.after_append]
  refine ⟨w, (Scan.scan (s.pos.after w) cs).taken, ?_, hcovers, hspells, hends, hplace, ?_⟩
  · rw [hrest, List.append_assoc, Scan.scan_split]
  · dsimp only
    rw [hplace, ← Pos.after_start, ← Pos.after_start, ← Pos.after_append]

/-- What is left at the end is a gap. -/
theorem next_end_tile {last : Pos} (hpos : s.pos = Pos.behind front)
    (hnext : s.next = (.ok ⟨.endOfInput, last⟩, s')) :
    IsGap true s.rest ∧ last = Pos.behind (front ++ s.rest) ∧ s' = ⟨[], last, true⟩ := by
  obtain ⟨_, cs, hskip, hfound, rfl⟩ := next_eq_ok.mp hnext
  cases eq_nil_of_endOfInput hfound
  obtain ⟨w, hrest, rfl, hcovers⟩ := Trivia.skip_covers hskip
  rw [List.append_nil] at hrest
  subst hrest
  refine ⟨hcovers, ?_, rfl⟩
  rw [hpos, ← Pos.after_start, ← Pos.after_start, Pos.after_append]

/-- What is read up to the end tiles the text. -/
theorem tiles_of_yields {ts : List Token} {last : Pos} {s₁ : Stream} (h : Yields s ts s₁)
    (hnext : s₁.next = (.ok ⟨.endOfInput, last⟩, s')) (hpos : s.pos = Pos.behind front) :
    Tiles front ts s.rest ∧ last = Pos.behind (front ++ s.rest) ∧ s' = ⟨[], last, true⟩ := by
  induction h generalizing front with
  | nil =>
    obtain ⟨hgap, hlast, hs'⟩ := next_end_tile hpos hnext
    exact ⟨.last hgap, hlast, hs'⟩
  | @cons s s₁ _ t ts hfirst ht _ ih =>
    obtain ⟨w, r, hrest, hgap, hspells, hends, htpos, hspos⟩ := next_tile hpos hfirst ht
    obtain ⟨htiles, hlast, hs'⟩ := ih hnext hspos
    obtain ⟨l, pos⟩ := t
    cases htpos
    rw [hrest]
    refine ⟨.token hgap hspells hends htiles, ?_, hs'⟩
    rw [hlast, List.append_assoc, List.append_assoc, List.append_assoc]

end Stream

namespace Lexer

/-- Behind the end there is nothing but the same error. -/
theorem next_of_ended {source : String} {l : Lexer source} (h : l.ended = true) :
    l.next = (.error ⟨.endOfInput, l.pos⟩, l) := by
  unfold next
  rw [if_pos h]

/-- A source that is read to its end without an error is tiled by its tokens, and after the end
every call is an error. -/
theorem tokens_tile_source (source : String) (ts : List Token) (last : Pos) (l l' : Lexer source)
    (hts : Yields (start source) ts l) (hlast : l.next = (.ok ⟨.endOfInput, last⟩, l')) :
    Tiles [] ts source.toList ∧ last = Pos.behind source.toList ∧
      ∀ k, ((fun l : Lexer source => l.next.2)^[k] l').next.1 = .error ⟨.endOfInput, last⟩ := by
  obtain ⟨s, hyields, htracks⟩ := hts.transfer (answersAlike_tracks source) (tracks_start source)
  obtain ⟨s', hend, htracks'⟩ := (answersAlike_tracks source).next_eq htracks hlast
  have hstart : (Stream.ofString source).pos = Pos.behind [] := rfl
  obtain ⟨htiles, hplace, rfl⟩ := Stream.tiles_of_yields hyields hend hstart
  refine ⟨htiles, hplace, fun k => ?_⟩
  have hended := next_of_ended htracks'.ended_eq
  rw [Function.iterate_fixed (congrArg Prod.snd hended), hended, htracks'.pos_eq]

/-- Tokens without blanks between them, a comment with a quote in it and a quoted comment. -/
def denseSource : String := "a/*\"*/\"b//\\\"c\"-1.5;\n// end"

def denseTokens : List Token :=
  [⟨.word "a", ⟨1, 1⟩⟩, ⟨.quoted "b//\\\"c", ⟨1, 7⟩⟩, ⟨.number ⟨true, ['1'], some ['5']⟩, ⟨1, 15⟩⟩,
   ⟨.symbol .semicolon, ⟨1, 19⟩⟩]

/-- The tokens are found one by one. -/
theorem yields_denseTokens : Yields (start denseSource) denseTokens ⟨19, ⟨1, 20⟩, false⟩ := by
  have hword : (start denseSource).next = (.ok ⟨.word "a", ⟨1, 1⟩⟩, ⟨1, ⟨1, 2⟩, false⟩) := by
    decide +kernel
  have hquoted : (⟨1, ⟨1, 2⟩, false⟩ : Lexer denseSource).next =
      (.ok ⟨.quoted "b//\\\"c", ⟨1, 7⟩⟩, ⟨14, ⟨1, 15⟩, false⟩) := by decide +kernel
  have hnumber : (⟨14, ⟨1, 15⟩, false⟩ : Lexer denseSource).next =
      (.ok ⟨.number ⟨true, ['1'], some ['5']⟩, ⟨1, 15⟩⟩, ⟨18, ⟨1, 19⟩, false⟩) := by
    decide +kernel
  have hsemicolon : (⟨18, ⟨1, 19⟩, false⟩ : Lexer denseSource).next =
      (.ok ⟨.symbol .semicolon, ⟨1, 19⟩⟩, ⟨19, ⟨1, 20⟩, false⟩) := by decide +kernel
  exact .cons hword (by simp) (.cons hquoted (by simp) (.cons hnumber (by simp)
    (.cons hsemicolon (by simp) .nil)))

theorem next_denseEnd : (⟨19, ⟨1, 20⟩, false⟩ : Lexer denseSource).next =
    (.ok ⟨.endOfInput, ⟨2, 7⟩⟩, ⟨26, ⟨2, 7⟩, true⟩) := by
  decide +kernel

theorem denseTokens_tile :
    (∃ l l', Yields (start denseSource) denseTokens l ∧
      l.next = (.ok ⟨.endOfInput, ⟨2, 7⟩⟩, l')) ∧
    Tiles [] denseTokens denseSource.toList := by
  have htile := tokens_tile_source denseSource denseTokens ⟨2, 7⟩ _ _ yields_denseTokens
    next_denseEnd
  exact ⟨⟨_, _, yields_denseTokens, next_denseEnd⟩, htile.1⟩

end Lexer

end Kfx
