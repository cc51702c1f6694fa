import Kfx.Proofs.Token.Tiling

/-!
# What is written is read

A gap is skipped whatever stands behind it, and a lexeme is found where it is written out and the
text behind it does not go on with it. The tokens of a source can so be written again with other
gaps between them, and reading them gives the same lexemes.
-/
namespace Kfx

namespace Trivia

variable {body w : List Char}

theorem skip_line (hbody : '\n' ∉ body) (p : Pos) (rest : List Char) :
    skip .line p (body ++ '\n' :: rest) = skip .code (p.after (body ++ ['\n'])) rest := by
  induction body generalizing p with
  | nil => simp [skip]
  | cons c body ih =>
    rw [List.mem_cons, not_or] at hbody
    rw [List.cons_append, skip.eq_7, if_neg (Ne.symm hbody.1), ih hbody.2]
    rfl

/-- A block comment is closed where it first can be. -/
theorem skip_block (hbody : ¬ ['*', '/'] <:+: body) (opened p : Pos) (rest : List Char) :
    skip (.block opened) p (body ++ '*' :: '/' :: rest) =
      skip .code (p.after (body ++ ['*', '/'])) rest := by
  induction body generalizing p with
  | nil => simp [skip]
  | cons c body ih =>
    rw [List.infix_cons_iff, not_or] at hbody
    have hopen : ∀ r, c = '*' → body ++ '*' :: '/' :: rest = '/' :: r → False := by
      rintro r rfl hr
      cases body with
      | nil => exact absurd (List.cons.inj hr).1 (by decide)
      | cons d body =>
        obtain ⟨rfl, _⟩ := List.cons.inj hr
        exact hbody.1 ⟨body, rfl⟩
    rw [List.cons_append, skip.eq_9 _ _ _ _ hopen, ih hbody.2]
    rfl

/-- A gap is skipped, and what comes of the text behind it is found at its place. -/
theorem skip_gap (hw : IsGap false w) (p : Pos) (rest : List Char) :
    skip .code p (w ++ rest) = skip .code (p.after w) rest := by
  induction hw generalizing p with
  | nil => rfl
  | @blank c w hc _ ih =>
    have hblank : isBlank c = true := by simpa [isBlank, or_assoc] using hc
    have hslash : c ≠ '/' := by
      rintro rfl
      simp at hc
    rw [List.cons_append, skip.eq_6, if_pos hblank, ih]
    · rfl
    · exact fun _ h => absurd h hslash
    · exact fun _ h => absurd h hslash
  | @line body w hbody _ ih =>
    have htext : '/' :: '/' :: (body ++ '\n' :: w) ++ rest =
        '/' :: '/' :: (body ++ '\n' :: (w ++ rest)) := by simp
    rw [htext, skip.eq_4, skip_line hbody, ih]
    simp
  | @block body w hbody _ ih =>
    have htext : '/' :: '*' :: (body ++ '*' :: '/' :: w) ++ rest =
        '/' :: '*' :: (body ++ '*' :: '/' :: (w ++ rest)) := by simp
    rw [htext, skip.eq_5, skip_block hbody, ih]
    simp
  | lastLine hend => cases hend

/-- Nothing is skipped before a character that belongs to a token. -/
theorem skip_upTo {c : Char} (hblank : isBlank c = false) (hslash : c ≠ '/') (p : Pos)
    (r : List Char) : skip .code p (c :: r) = .upTo p (c :: r) := by
  rw [skip.eq_6, if_neg (by simp [hblank])]
  · exact fun _ h => absurd h hslash
  · exact fun _ h => absurd h hslash

end Trivia

namespace Scan

variable {l : Lexeme} {r rest : List Char}

theorem ofChar?_char (s : Symbol) : Symbol.ofChar? s.char = some s := by
  cases s <;> rfl

/-- A character that starts another lexeme is no symbol. -/
theorem ofChar?_eq_none {c : Char} (h : c = '"' ∨ c = '-' ∨ c.isAlphanum = true ∨ c = '_') :
    Symbol.ofChar? c = none := by
  cases hs : Symbol.ofChar? c with
  | none => rfl
  | some s =>
    have hchar := char_of_ofChar? hs
    subst hchar
    cases s <;> revert h <;> decide

/-- All of a class is taken, and nothing behind it. -/
theorem takeWhile_dropWhile_of_class {p : Char → Bool} {cs : List Char}
    (hcs : ∀ c ∈ cs, p c = true) (hrest : ∀ c ∈ rest.head?, p c = false) :
    (cs ++ rest).takeWhile p = cs ∧ (cs ++ rest).dropWhile p = rest := by
  have hstop : rest.takeWhile p = [] ∧ rest.dropWhile p = rest := by
    cases rest with
    | nil => exact ⟨rfl, rfl⟩
    | cons c rest =>
      have hc : p c = false := hrest c rfl
      simp [hc]
  rw [List.takeWhile_append_of_pos hcs, List.dropWhile_append_of_pos hcs, hstop.1, hstop.2]
  exact ⟨List.append_nil cs, rfl⟩

theorem quotation_of_isRaw {raw : List Char} (h : IsRaw raw) (rest : List Char) :
    quotation (raw ++ '"' :: rest) = ⟨raw, rest, true⟩ := by
  induction h with
  | nil => rfl
  | @plain c r hquote hfeed hslash _ ih =>
    rw [List.cons_append, quotation.eq_7 c _ hquote hfeed (fun hc => absurd hc hslash)
      (fun _ hc => absurd hc hslash) (fun _ _ hc => absurd hc hslash), ih]
    rfl
  | @escaped c r hfeed _ ih =>
    rw [List.cons_append, List.cons_append, quotation.eq_6 c _ hfeed, ih]
    rfl

/-- The digits of a number are read back, whatever sign stood before them. -/
theorem literal_of_digits {whole : List Char} {fraction : Option (List Char)} {negative : Bool}
    (hdigits : ∀ d ∈ whole ++ fraction.getD [], d.isDigit = true)
    (hend : (Lexeme.number ⟨negative, whole, fraction⟩).EndsBefore rest) :
    literal negative (Number.Literal.text ⟨false, whole, fraction⟩ ++ rest) =
      (⟨negative, whole, fraction⟩, rest) := by
  have hwhole : ∀ d ∈ whole, d.isDigit = true := fun d hd => hdigits d (List.mem_append_left _ hd)
  have hstop : ∀ c ∈ rest.head?, c.isDigit = false := fun c hc => (hend c hc).1
  unfold literal Number.Literal.text
  cases fraction with
  | none =>
    have hpoint : ∀ r, rest = '.' :: r → False := by
      rintro r rfl
      exact (hend '.' rfl).2 rfl rfl
    obtain ⟨htake, hdrop⟩ := takeWhile_dropWhile_of_class hwhole hstop
    simp [htake, hdrop]
  | some ds =>
    have hds : ∀ d ∈ ds, d.isDigit = true := fun d hd => hdigits d (List.mem_append_right _ hd)
    have hpoint : ∀ c ∈ ('.' :: (ds ++ rest)).head?, c.isDigit = false := by
      rintro c ⟨⟩
      decide
    obtain ⟨htake, hdrop⟩ := takeWhile_dropWhile_of_class hwhole hpoint
    obtain ⟨htakes, hdrops⟩ := takeWhile_dropWhile_of_class hds hstop
    simp [htake, hdrop, htakes, hdrops]

/-- A number is found with its sign. -/
theorem scan_number {n : Number.Literal} (hwhole : n.whole ≠ [])
    (hdigits : ∀ d ∈ n.whole ++ n.fraction.getD [], d.isDigit = true)
    (hend : (Lexeme.number n).EndsBefore rest) (p : Pos) :
    scan p (n.text ++ rest) = ⟨.ok (.number n), n.text, rest⟩ := by
  obtain ⟨negative, whole, fraction⟩ := n
  have hread := literal_of_digits hdigits hend
  obtain ⟨d, ds, rfl⟩ := List.exists_cons_of_ne_nil hwhole
  have hd : d.isDigit = true := hdigits d (by simp)
  obtain ⟨r, hr⟩ : ∃ r, Number.Literal.text ⟨false, d :: ds, fraction⟩ ++ rest = d :: r :=
    ⟨_, rfl⟩
  have hnumber : number negative (d :: r) =
      ⟨.ok (.number ⟨negative, d :: ds, fraction⟩),
        Number.Literal.text ⟨negative, d :: ds, fraction⟩, rest⟩ := by
    rw [number, ← hr, hread]
  rw [← hnumber]
  cases negative with
  | true =>
    have htext : Number.Literal.text ⟨true, d :: ds, fraction⟩ ++ rest = '-' :: d :: r := by
      rw [← hr]
      rfl
    have hsymbol : Symbol.ofChar? '-' = none := ofChar?_eq_none (by simp)
    rw [htext]
    simp [scan, hsymbol, hd]
  | false =>
    have hsymbol : Symbol.ofChar? d = none := ofChar?_eq_none (by simp [Char.isAlphanum, hd])
    have hquote : d ≠ '"' := by rintro rfl; cases hd
    have hminus : d ≠ '-' := by rintro rfl; cases hd
    rw [hr]
    simp [scan, hsymbol, hquote, hminus, hd]

/-- A word is found up to the first character that is none of a word. -/
theorem scan_word {c : Char} {cs : List Char} (hc : c.isAlpha = true ∨ c = '_')
    (hcs : ∀ d ∈ cs, d.isAlphanum = true ∨ d = '_')
    (hend : (Lexeme.word (String.ofList (c :: cs))).EndsBefore rest) (p : Pos) :
    scan p (c :: (cs ++ rest)) = ⟨.ok (.word (String.ofList (c :: cs))), c :: cs, rest⟩ := by
  have hsymbol : Symbol.ofChar? c = none := by
    refine ofChar?_eq_none (Or.inr (Or.inr ?_))
    exact hc.imp_left fun h => by simp [Char.isAlphanum, h]
  have hquote : c ≠ '"' := by rintro rfl; revert hc; decide
  have hminus : c ≠ '-' := by rintro rfl; revert hc; decide
  have hdigit : c.isDigit = false := by
    rcases hc with hc | rfl
    · delta Char.isAlpha Char.isUpper Char.isLower Char.isDigit at hc ⊢
      grind
    · decide
  have hstart : isWordStart c = true := by simpa [isWordStart] using hc
  have hchars : ∀ d ∈ cs, isWordChar d = true := fun d hd => by simpa [isWordChar] using hcs d hd
  have hstop : ∀ d ∈ rest.head?, isWordChar d = false := fun d hd => by
    simpa [isWordChar] using hend d hd
  obtain ⟨htake, hdrop⟩ := takeWhile_dropWhile_of_class hchars hstop
  simp [scan, hsymbol, hquote, hminus, hdigit, hstart, htake, hdrop]

/-- A lexeme that is written out is found, if the text behind it does not go on with it. -/
theorem scan_of_spells (hl : l.Spells r) (hend : l.EndsBefore rest) (p : Pos) :
    scan p (r ++ rest) = ⟨.ok l, r, rest⟩ := by
  cases hl with
  | symbol s =>
    unfold scan
    simp only [List.cons_append, List.nil_append, ofChar?_char]
  | word hc hcs => exact scan_word hc hcs hend p
  | number hwhole hdigits => exact scan_number hwhole hdigits hend p
  | @quoted raw hraw =>
    have hread := quotation_of_isRaw hraw rest
    have hsymbol : Symbol.ofChar? '"' = none := ofChar?_eq_none (by simp)
    simp [scan, hsymbol, hread, Quotation.taken]

end Scan

namespace Lexeme

variable {l : Lexeme} {r : List Char}

/-- A lexeme as it is written, a quoted one with its quotes. -/
def written : Lexeme → List Char
  | .quoted raw => '"' :: raw.toList ++ ['"']
  | l => l.text.toList

theorem Spells.eq_written (h : l.Spells r) : r = l.written := by
  cases h <;> simp [written, text]

/-- No lexeme starts like a gap. -/
theorem Spells.starts (h : l.Spells r) :
    ∃ c cs, r = c :: cs ∧ Trivia.isBlank c = false ∧ c ≠ '/' := by
  cases h with
  | symbol s =>
    refine ⟨s.char, [], rfl, ?_⟩
    cases s <;> decide
  | @word c cs hc _ =>
    have hclass : ∀ d : Char, d.isAlpha = false → d ≠ '_' → c ≠ d := by
      rintro d halpha hline rfl
      simp [halpha, hline] at hc
    refine ⟨c, cs, rfl, ?_, hclass '/' (by decide) (by decide)⟩
    simp [Trivia.isBlank, hclass ' ' (by decide) (by decide), hclass '\t' (by decide) (by decide),
      hclass '\r' (by decide) (by decide), hclass '\n' (by decide) (by decide)]
  | @number n hwhole hdigits =>
    obtain ⟨negative, whole, fraction⟩ := n
    obtain ⟨d, ds, rfl⟩ := List.exists_cons_of_ne_nil hwhole
    cases negative with
    | true => exact ⟨'-', _, rfl, by decide, by decide⟩
    | false =>
      have hd : d.isDigit = true := hdigits d (by simp)
      have hclass : ∀ e : Char, e.isDigit = false → d ≠ e := by
        rintro e he rfl
        simp [he] at hd
      refine ⟨d, _, rfl, ?_, hclass '/' (by decide)⟩
      simp [Trivia.isBlank, hclass ' ' (by decide), hclass '\t' (by decide),
        hclass '\r' (by decide), hclass '\n' (by decide)]
  | quoted hraw => exact ⟨'"', _, rfl, by decide, by decide⟩

/-- No lexeme goes on with a gap, nor with the end of the text. -/
theorem endsBefore_of_gap {w rest : List Char} (hw : IsGap false w) (hrest : w = [] → rest = [])
    (l : Lexeme) : l.EndsBefore (w ++ rest) := by
  have hhead : ∀ c ∈ (w ++ rest).head?, c ∈ [' ', '\t', '\r', '\n', '/'] := by
    intro c hc
    cases hw with
    | nil =>
      rw [hrest rfl] at hc
      cases hc
    | blank hblank _ =>
      cases hc
      simpa [or_assoc] using Or.inl hblank
    | line _ _ =>
      cases hc
      simp
    | block _ _ =>
      cases hc
      simp
    | lastLine hend _ => cases hend
  have hnone : ∀ c ∈ [' ', '\t', '\r', '\n', '/'],
      ¬ (c.isAlphanum = true ∨ c = '_') ∧ c.isDigit = false ∧ c ≠ '.' := by simp
  cases l with
  | word text => exact fun c hc => (hnone c (hhead c hc)).1
  | number n =>
    intro c hc
    obtain ⟨_, hdigit, hpoint⟩ := hnone c (hhead c hc)
    exact ⟨hdigit, fun _ => hpoint⟩
  | symbol s => trivial
  | quoted raw => trivial
  | endOfInput => trivial

end Lexeme

/-- Lexemes written one after another, each behind a gap of its own, and a last gap. -/
def spaced : List (List Char) → List Lexeme → List Char → List Char
  | w :: ws, l :: ls, last => w ++ (l.written ++ spaced ws ls last)
  | _, _, last => last

/-- Gaps to write around lexemes: blanks and closed comments, and between two lexemes not
nothing. -/
structure Separates (gaps : List (List Char)) (last : List Char) : Prop where
  isGap : ∀ w ∈ gaps, IsGap false w
  ne_nil : ∀ w ∈ gaps.tail, w ≠ []
  isGap_last : IsGap false last

theorem Separates.tail {w last : List Char} {ws : List (List Char)}
    (h : Separates (w :: ws) last) : Separates ws last where
  isGap v hv := h.isGap v (List.mem_cons_of_mem w hv)
  ne_nil v hv := h.ne_nil v (List.mem_of_mem_tail hv)
  isGap_last := h.isGap_last

/-- Behind a lexeme comes a gap or the end. -/
theorem Separates.endsBefore {w last : List Char} {ws : List (List Char)}
    (h : Separates (w :: ws) last) {ls : List Lexeme} (hlength : ws.length = ls.length)
    (l : Lexeme) : l.EndsBefore (spaced ws ls last) := by
  match ws, ls with
  | [], [] =>
    have hend := Lexeme.endsBefore_of_gap h.isGap_last (fun _ => rfl) l
    rwa [List.append_nil] at hend
  | v :: ws, l' :: ls =>
    have hv : v ≠ [] := h.ne_nil v (by simp)
    exact Lexeme.endsBefore_of_gap (h.isGap v (by simp)) (fun hnil => absurd hnil hv) l

namespace Stream

variable {s s' : Stream} {l : Lexeme} {w r rest : List Char}

/-- The token behind a gap, where its lexeme is written out. -/
theorem next_of_spells (hs : s.ended = false) (hrest : s.rest = w ++ (r ++ rest))
    (hw : IsGap false w) (hl : l.Spells r) (hend : l.EndsBefore rest) :
    s.next = (.ok ⟨l, s.pos.after w⟩, ⟨rest, s.pos.after (w ++ r), false⟩) := by
  have hscan := Scan.scan_of_spells hl hend (s.pos.after w)
  have hlast : (l == .endOfInput) = false := by cases hl <;> rfl
  obtain ⟨c, cs, rfl, hblank, hslash⟩ := hl.starts
  refine next_eq_ok.mpr ⟨hs, c :: cs ++ rest, ?_, ?_, ?_⟩
  · rw [hrest, Trivia.skip_gap hw]
    exact Trivia.skip_upTo hblank hslash _ _
  · rw [hscan]
  · rw [hscan, hlast, Pos.after_append]

/-- The end behind a gap. -/
theorem next_of_gap (hs : s.ended = false) (hw : IsGap false s.rest) :
    s.next = (.ok ⟨.endOfInput, s.pos.after s.rest⟩, ⟨[], s.pos.after s.rest, true⟩) := by
  refine next_eq_ok.mpr ⟨hs, [], ?_, rfl, rfl⟩
  have hskip := Trivia.skip_gap hw s.pos []
  rwa [List.append_nil] at hskip

/-- Whatever is read as a token is a lexeme written out. -/
theorem spells_of_next {t : Token} (h : s.next = (.ok t, s')) (ht : t.lexeme ≠ .endOfInput) :
    ∃ r, t.lexeme.Spells r := by
  obtain ⟨l, pos⟩ := t
  obtain ⟨_, cs, _, hfound, _⟩ := next_eq_ok.mp h
  exact ⟨_, (Scan.scan_spells hfound ht).1⟩

theorem spells_of_yields {ts : List Token} (h : Yields s ts s') :
    ∀ l ∈ ts.map Token.lexeme, ∃ r, l.Spells r := by
  induction h with
  | nil => simp
  | cons hnext ht _ ih => simpa using ⟨spells_of_next hnext ht, by simpa using ih⟩

/-- Lexemes written with gaps around them are read one by one, up to the end. -/
theorem yields_spaced {ls : List Lexeme} (hls : ∀ l ∈ ls, ∃ r, l.Spells r)
    {gaps : List (List Char)} {last : List Char} (hlength : gaps.length = ls.length)
    (hgaps : Separates gaps last) (hs : s.ended = false) (hrest : s.rest = spaced gaps ls last) :
    ∃ ts, (∃ s₁ pos s₂, Yields s ts s₁ ∧ s₁.next = (.ok ⟨.endOfInput, pos⟩, s₂)) ∧
      ts.map Token.lexeme = ls := by
  -- On the lexemes, for every stream that stands before them.
  induction ls generalizing gaps s with
  | nil =>
    have hgap : IsGap false s.rest := by
      rw [hrest, List.eq_nil_of_length_eq_zero hlength]
      exact hgaps.isGap_last
    exact ⟨[], ⟨s, _, _, .nil, next_of_gap hs hgap⟩, rfl⟩
  | cons l ls ih =>
    cases gaps with
    | nil => cases hlength
    | cons w ws =>
      obtain ⟨r, hl⟩ := hls l (by simp)
      have hws : ws.length = ls.length := Nat.succ.inj hlength
      have hne : l ≠ .endOfInput := by
        rintro rfl
        cases hl
      rw [spaced, ← hl.eq_written] at hrest
      have hnext := next_of_spells hs hrest (hgaps.isGap w (by simp)) hl (hgaps.endsBefore hws l)
      obtain ⟨ts, ⟨s₁, pos, s₂, hyields, hend⟩, hts⟩ :=
        ih (s := ⟨spaced ws ls last, s.pos.after (w ++ r), false⟩)
          (fun l' hl' => hls l' (by simp [hl'])) hws hgaps.tail rfl rfl
      exact ⟨_, ⟨s₁, pos, s₂, .cons hnext hne hyields, hend⟩, by simp [hts]⟩

end Stream

namespace Lexer

/-- A lexeme that is ahead behind a gap is read. -/
theorem next_of_spells {source : String} {l : Lexer source} {x : Lexeme} {w r rest : List Char}
    (hl : l.ended = false) (hahead : l.Ahead (w ++ (r ++ rest))) (hw : IsGap false w)
    (hx : x.Spells r) (hend : x.EndsBefore rest) :
    ∃ l', l.next = (.ok ⟨x, l.pos.after w⟩, l') ∧ l.Behind (w ++ r) rest l' := by
  have hnext := Stream.next_of_spells (s := ⟨_, l.pos, l.ended⟩) hl rfl hw hx hend
  rw [hl] at hnext
  exact hahead.next_eq (by rw [hl]; exact hnext)

/-- The source is read to its end without an error, and these are its tokens. -/
def LexesTo (source : String) (ts : List Token) : Prop :=
  ∃ l last l', Yields (start source) ts l ∧ l.next = (.ok ⟨.endOfInput, last⟩, l')

/-- A source has the tokens of its stream. -/
theorem lexesTo_iff {source : String} {ts : List Token} : LexesTo source ts ↔
    ∃ s last s', Yields (Stream.ofString source) ts s ∧
      s.next = (.ok ⟨.endOfInput, last⟩, s') := by
  have halike := answersAlike_tracks source
  constructor
  · rintro ⟨l, last, l', hyields, hend⟩
    obtain ⟨s, hyields', hs⟩ := hyields.transfer halike (tracks_start source)
    obtain ⟨s', hend', _⟩ := halike.next_eq hs hend
    exact ⟨s, last, s', hyields', hend'⟩
  · rintro ⟨s, last, s', hyields, hend⟩
    obtain ⟨l, hyields', hl⟩ := hyields.transfer halike.flip (tracks_start source)
    obtain ⟨l', hend', _⟩ := halike.flip.next_eq hl hend
    exact ⟨l, last, l', hyields', hend'⟩

/-- Blanks and comments never change the tokens. The tokens of a source, written again with any gaps
before, between and behind them, are read as the same lexemes in the same order, and then the end.
The same lexemes have the same sorts, texts and numbers. -/
theorem tokens_kept_by_gaps (source : String) (ts : List Token) (hts : LexesTo source ts)
    (gaps : List (List Char)) (last : List Char) (hlength : gaps.length = ts.length)
    (hgaps : Separates gaps last) :
    ∃ ts', LexesTo (String.ofList (spaced gaps (ts.map Token.lexeme) last)) ts' ∧
      ts'.map Token.lexeme = ts.map Token.lexeme := by
  obtain ⟨_, _, _, hyields, _⟩ := lexesTo_iff.mp hts
  have hlength' : gaps.length = (ts.map Token.lexeme).length := by rw [List.length_map, hlength]
  simp only [lexesTo_iff]
  exact Stream.yields_spaced (Stream.spells_of_yields hyields) hlength' hgaps rfl
    (String.toList_ofList ..)

/-- Comments that look closed before they are, that open nothing, and that hold a quote. -/
def oddGaps : List (List Char) :=
  ["/***/".toList, "/*/ */".toList, "//\"\n".toList, "\r/*//*/".toList]

theorem denseTokens_kept_by_gaps :
    LexesTo denseSource denseTokens ∧ Separates oddGaps "\t//;\n".toList ∧
    ∃ ts, LexesTo "/***/a/*/ */\"b//\\\"c\"//\"\n-1.5\r/*//*/;\t//;\n" ts ∧
      ts.map Token.lexeme = denseTokens.map Token.lexeme := by
  have hlexes : LexesTo denseSource denseTokens :=
    ⟨_, _, _, yields_denseTokens, next_denseEnd⟩
  have hgaps : Separates oddGaps "\t//;\n".toList := by
    refine ⟨?_, by decide, ?_⟩
    · intro w hw
      simp only [oddGaps, List.mem_cons, List.not_mem_nil, or_false] at hw
      rcases hw with rfl | rfl | rfl | rfl
      · exact @IsGap.block _ ['*'] [] (by decide) .nil
      · exact @IsGap.block _ ['/', ' '] [] (by decide) .nil
      · exact @IsGap.line _ ['"'] [] (by decide) .nil
      · exact .blank (c := '\r') (by simp) (@IsGap.block _ ['/', '/'] [] (by decide) .nil)
    · exact .blank (c := '\t') (by simp) (@IsGap.line _ [';'] [] (by decide) .nil)
  have htext : String.ofList (spaced oddGaps (denseTokens.map Token.lexeme) "\t//;\n".toList) =
      "/***/a/*/ */\"b//\\\"c\"//\"\n-1.5\r/*//*/;\t//;\n" := by decide
  have hkept := tokens_kept_by_gaps denseSource denseTokens hlexes oddGaps _ rfl hgaps
  rw [htext] at hkept
  exact ⟨hlexes, hgaps, hkept⟩

end Lexer

end Kfx
