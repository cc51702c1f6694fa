import Kfx.Proofs.Grammar.Composition
import Kfx.Proofs.Token.Spacing

/-!
# Blocks of raw text

A block is captured exactly when its braces match, and what is captured is the text between them as
it is written. The counter of open braces is followed from one character to the next: it is the
number of braces that the text so far leaves open, so it never falls below zero.
-/
namespace Kfx

/-- Every prefix opens at least as many braces as it closes, and the whole as many. -/
structure Balanced (g : List Char) : Prop where
  prefixes : ∀ front, front <+: g → front.count '\x7d' ≤ front.count '\x7b'
  total : g.count '\x7b' = g.count '\x7d'

namespace Stream

section

variable {depth : Nat} {c : Char} {r cs g rest : List Char}

theorem splitBraces_opening (depth : Nat) (r : List Char) : splitBraces depth ('\x7b' :: r) =
    (splitBraces (depth + 1) r).map fun q => ('\x7b' :: q.1, q.2) := by
  simp [splitBraces]

theorem splitBraces_closing (depth : Nat) (r : List Char) :
    splitBraces (depth + 1) ('\x7d' :: r) =
      (splitBraces depth r).map fun q => ('\x7d' :: q.1, q.2) := by
  simp [splitBraces]

theorem splitBraces_other (hopen : c ≠ '\x7b') (hclose : c ≠ '\x7d') (depth : Nat)
    (r : List Char) :
    splitBraces depth (c :: r) = (splitBraces depth r).map fun q => (c :: q.1, q.2) := by
  simp [splitBraces, hopen, hclose]

/-- What stands before the closing brace, with `depth` more braces open at its start: no prefix
closes them all and one more, and the whole closes just these. -/
structure ClosesAll (depth : Nat) (g : List Char) : Prop where
  prefixes : ∀ front, front <+: g → front.count '\x7d' ≤ depth + front.count '\x7b'
  total : depth + g.count '\x7b' = g.count '\x7d'

theorem closesAll_zero : ClosesAll 0 g ↔ Balanced g := by
  constructor
  · rintro ⟨hprefixes, htotal⟩
    exact ⟨by simpa using hprefixes, by simpa using htotal⟩
  · rintro ⟨hprefixes, htotal⟩
    exact ⟨by simpa using hprefixes, by simpa using htotal⟩

theorem forall_prefix_cons {p : List Char → Prop} :
    (∀ front, front <+: c :: g → p front) ↔ p [] ∧ ∀ front, front <+: g → p (c :: front) := by
  constructor
  · intro h
    exact ⟨h [] List.nil_prefix, fun front hfront => h _ (List.cons_prefix_cons.mpr ⟨rfl, hfront⟩)⟩
  · rintro ⟨hnil, hcons⟩ front hfront
    rcases List.prefix_cons_iff.mp hfront with rfl | ⟨tail, rfl, htail⟩
    · exact hnil
    · exact hcons tail htail

theorem closesAll_nil : ClosesAll depth [] ↔ depth = 0 := by
  constructor
  · rintro ⟨_, htotal⟩
    simpa using htotal
  · rintro rfl
    exact ⟨by simp, rfl⟩

theorem closesAll_opening : ClosesAll depth ('\x7b' :: g) ↔ ClosesAll (depth + 1) g := by
  constructor
  · rintro ⟨hprefixes, htotal⟩
    refine ⟨fun front hfront => ?_, ?_⟩
    · have hle := (forall_prefix_cons.mp hprefixes).2 front hfront
      simp at hle
      omega
    · simp at htotal
      omega
  · rintro ⟨hprefixes, htotal⟩
    refine ⟨forall_prefix_cons.mpr ⟨by simp, fun front hfront => ?_⟩, ?_⟩
    · have hle := hprefixes front hfront
      simp
      omega
    · simp
      omega

/-- A closing brace needs one that is open. -/
theorem closesAll_closing :
    ClosesAll depth ('\x7d' :: g) ↔ ∃ d, depth = d + 1 ∧ ClosesAll d g := by
  constructor
  · rintro ⟨hprefixes, htotal⟩
    rw [forall_prefix_cons] at hprefixes
    have hpos := hprefixes.2 [] List.nil_prefix
    simp at hpos htotal
    refine ⟨depth - 1, by omega, fun front hfront => ?_, by omega⟩
    have hle := hprefixes.2 front hfront
    simp at hle
    omega
  · rintro ⟨d, rfl, hprefixes, htotal⟩
    refine ⟨forall_prefix_cons.mpr ⟨by simp, fun front hfront => ?_⟩, ?_⟩
    · have hle := hprefixes front hfront
      simp
      omega
    · simp
      omega

theorem closesAll_other (hopen : c ≠ '\x7b') (hclose : c ≠ '\x7d') :
    ClosesAll depth (c :: g) ↔ ClosesAll depth g := by
  constructor
  · rintro ⟨hprefixes, htotal⟩
    rw [forall_prefix_cons] at hprefixes
    exact ⟨by simpa [hopen, hclose] using hprefixes.2, by simpa [hopen, hclose] using htotal⟩
  · rintro ⟨hprefixes, htotal⟩
    refine ⟨forall_prefix_cons.mpr ⟨by simp, ?_⟩, by simpa [hopen, hclose] using htotal⟩
    simpa [hopen, hclose] using hprefixes

/-- What is split off closes what was open. -/
theorem closesAll_of_splitBraces (h : splitBraces depth cs = some (g, rest)) :
    ClosesAll depth g := by
  fun_induction splitBraces depth cs generalizing g with
  | case1 => cases h
  | case2 r =>
    cases h
    exact closesAll_nil.mpr rfl
  | case3 r d ih =>
    obtain ⟨q, hq, heq⟩ := Option.map_eq_some_iff.mp h
    cases heq
    exact closesAll_closing.mpr ⟨d, rfl, ih hq⟩
  | case4 depth r _ ih =>
    obtain ⟨q, hq, heq⟩ := Option.map_eq_some_iff.mp h
    cases heq
    exact closesAll_opening.mpr (ih hq)
  | case5 depth c r hclose hopen ih =>
    obtain ⟨q, hq, heq⟩ := Option.map_eq_some_iff.mp h
    cases heq
    exact (closesAll_other hopen hclose).mpr (ih hq)

/-- A text that closes what is open is split off at the brace behind it. -/
theorem splitBraces_of_closesAll (h : ClosesAll depth g) (rest : List Char) :
    splitBraces depth (g ++ '\x7d' :: rest) = some (g, rest) := by
  induction g generalizing depth with
  | nil =>
    cases closesAll_nil.mp h
    simp [splitBraces]
  | cons c g ih =>
    rw [List.cons_append]
    by_cases hopen : c = '\x7b'
    · subst hopen
      rw [splitBraces_opening, ih (closesAll_opening.mp h)]
      rfl
    · by_cases hclose : c = '\x7d'
      · subst hclose
        obtain ⟨d, rfl, hd⟩ := closesAll_closing.mp h
        rw [splitBraces_closing, ih hd]
        rfl
      · rw [splitBraces_other hopen hclose, ih ((closesAll_other hopen hclose).mp h)]
        rfl

/-- The text behind an opening brace is split at the brace that matches it. -/
theorem splitBraces_eq_some_iff :
    splitBraces 0 cs = some (g, rest) ↔ cs = g ++ '\x7d' :: rest ∧ Balanced g := by
  constructor
  · intro h
    exact ⟨splitBraces_append h, closesAll_zero.mp (closesAll_of_splitBraces h)⟩
  · rintro ⟨rfl, hg⟩
    exact splitBraces_of_closesAll (closesAll_zero.mpr hg) rest

theorem splitBraces_eq_none_iff :
    splitBraces 0 cs = none ↔ ¬ ∃ g rest, cs = g ++ '\x7d' :: rest ∧ Balanced g := by
  simp only [← splitBraces_eq_some_iff]
  cases splitBraces 0 cs with
  | none => simp
  | some q => simpa using ⟨q.1, q.2, rfl⟩

end

section

variable {s s' : Stream} {w g r rest : List Char}

/-- A block whose braces match is captured as it is written. -/
theorem capture_of_balanced (hrest : s.rest = w ++ '\x7b' :: (g ++ '\x7d' :: rest))
    (hw : IsGap false w) (hg : Balanced g) :
    s.capture = (.ok ⟨String.ofList g, s.pos.after w⟩,
      ⟨rest, s.pos.after (w ++ '\x7b' :: (g ++ ['\x7d'])), s.ended⟩) := by
  refine capture_eq_ok.mpr ⟨_, g, rest, ?_, splitBraces_eq_some_iff.mpr ⟨rfl, hg⟩, rfl, by simp⟩
  rw [hrest, Trivia.skip_gap hw]
  exact Trivia.skip_upTo (by decide) (by decide) _ _

/-- What is captured is such a block. -/
theorem balanced_of_capture {b : Capture} (h : s.capture = (.ok b, s')) :
    ∃ w g, s.rest = w ++ '\x7b' :: (g ++ '\x7d' :: s'.rest) ∧ IsGap false w ∧ Balanced g ∧
      b.text = String.ofList g := by
  obtain ⟨text, pos⟩ := b
  obtain ⟨r, g, rest, hskip, hsplit, rfl, rfl⟩ := capture_eq_ok.mp h
  obtain ⟨w, hrest, _, hcovers⟩ := Trivia.skip_covers hskip
  obtain ⟨rfl, hg⟩ := splitBraces_eq_some_iff.mp hsplit
  exact ⟨w, g, hrest, hcovers, hg, rfl⟩

/-- Behind an opening brace the only way to fail is to come to the end. -/
theorem capture_of_unbalanced (hrest : s.rest = w ++ '\x7b' :: r) (hw : IsGap false w)
    (hr : ¬ ∃ g rest, r = g ++ '\x7d' :: rest ∧ Balanced g) :
    s.capture = (.error ⟨.endOfInput, s.pos.after s.rest⟩, ⟨[], s.pos.after s.rest, s.ended⟩) := by
  have hsplit := splitBraces_eq_none_iff.mpr hr
  have hskip : Trivia.skip .code s.pos s.rest = .upTo (s.pos.after w) ('\x7b' :: r) := by
    rw [hrest, Trivia.skip_gap hw]
    exact Trivia.skip_upTo (by decide) (by decide) _ _
  have hend : s.pos.after s.rest = (s.pos.after w).after ('\x7b' :: r) := by
    rw [hrest, Pos.after_append]
  rw [hend]
  unfold capture
  simp [hskip, hsplit]

end

end Stream

namespace Grammar

open Kfx.Grammar.Parser

/-- Behind the word `GLSL`, a name and a block, items are read on with one more fragment. -/
theorem run_itemsUpTo_code {S : Type} [TokenSource S] {s s₁ s' : S} {l last : Lexeme}
    {name text : String}
    (hlast : last ≠ .word "GLSL") (hword : Gives s (.word "GLSL") s₁)
    (hname : IsName l name) (hreads : Reads s₁ [.token l, .raw text] s')
    (nested : Pos → Effect → Parser Effect) (e : Effect) :
    (itemsUpTo last nested e).run s =
      (itemsUpTo last nested (e.add (.codeFragment ⟨name, text⟩))).run s' := by
  obtain ⟨pos, hnext⟩ := hword.next_eq
  have hfragment := run_codeFragment_eq_ok.mpr ⟨l, name, text, hname, hreads, rfl⟩
  rw [itemsUpTo, run_loop, hnext]
  dsimp only
  rw [if_neg (Ne.symm hlast)]
  unfold item
  simp only [run_bind, hfragment]
  rfl

end Grammar

namespace Lexer

open Grammar Grammar.Parser

variable {source : String} {lexer : Lexer source}

/-- The states of the loop that looks for the end of a block, from `lexer` behind the opening brace:
the bytes read so far, the counter of open braces and the lexer behind these bytes. The counter
starts at one and the loop goes on unless a closing brace takes it to zero; it is an integer here,
so that it could fall below. -/
inductive Counts (lexer : Lexer source) : List UInt8 → Int → Lexer source → Prop
  | start : Counts lexer [] 1 lexer
  | opening {front n l} (h : Counts lexer front n l) (hb : l.peek? = some '\x7b'.toUInt8) :
    Counts lexer (front ++ ['\x7b'.toUInt8]) (n + 1) l.bump
  | closing {front n l} (h : Counts lexer front n l) (hb : l.peek? = some '\x7d'.toUInt8)
      (hn : n - 1 ≠ 0) : Counts lexer (front ++ ['\x7d'.toUInt8]) (n - 1) l.bump
  | other {front n b l} (h : Counts lexer front n l) (hb : l.peek? = some b)
      (hopen : b ≠ '\x7b'.toUInt8) (hclose : b ≠ '\x7d'.toUInt8) :
    Counts lexer (front ++ [b]) n l.bump

/-- Wherever the loop is, its counter is the surplus of opened braces, the outer one included, and
the brace is looked for from there with the inner ones. -/
structure CountsOpen (lexer : Lexer source) (front : List UInt8) (n : Int) (l : Lexer source) :
    Prop where
  positive : 1 ≤ n
  surplus : n = 1 + front.count '\x7b'.toUInt8 - front.count '\x7d'.toUInt8
  bytes_eq : lexer.bytes = front ++ l.bytes
  toBrace_eq : lexer.toBrace 0 = l.toBrace (n - 1).toNat

theorem bytes_of_peek? {b : UInt8} (h : lexer.peek? = some b) :
    lexer.bytes = b :: lexer.bump.bytes := by
  rw [peek?_eq] at h
  obtain ⟨bs, hbs⟩ := List.head?_eq_some_iff.mp h
  rw [bytes_bump hbs, hbs]

/-- As long as braces are counted the counter is above zero, and the search goes on behind what it
has counted. -/
theorem Counts.countsOpen {front : List UInt8} {n : Int} {l : Lexer source}
    (h : lexer.Counts front n l) : lexer.CountsOpen front n l := by
  have hbraces : '\x7b'.toUInt8 ≠ '\x7d'.toUInt8 := by decide
  induction h with
  | start => exact ⟨by omega, by simp, rfl, rfl⟩
  | @opening front n l _ hb ih =>
    obtain ⟨hpos, hsurplus, hbytes, hsearch⟩ := ih
    refine ⟨by omega, ?_, by rw [hbytes, bytes_of_peek? hb]; simp, ?_⟩
    · simp [hbraces]
      omega
    · have hdepth : (n + 1 - 1).toNat = (n - 1).toNat + 1 := by omega
      rw [hsearch, toBrace_of_some hb, if_pos rfl, hdepth]
  | @closing front n l _ hb hn ih =>
    obtain ⟨hpos, hsurplus, hbytes, hsearch⟩ := ih
    refine ⟨by omega, ?_, by rw [hbytes, bytes_of_peek? hb]; simp, ?_⟩
    · simp [hbraces.symm]
      omega
    · have hdepth : (n - 1 - 1).toNat = (n - 1).toNat - 1 := by omega
      rw [hsearch, toBrace_of_some hb, if_neg hbraces.symm, if_pos rfl, if_neg (by omega), hdepth]
  | @other front n b l _ hb hopen hclose ih =>
    obtain ⟨hpos, hsurplus, hbytes, hsearch⟩ := ih
    refine ⟨hpos, ?_, by rw [hbytes, bytes_of_peek? hb]; simp, ?_⟩
    · simpa [hopen, hclose] using hsurplus
    · rw [hsearch, toBrace_of_some hb, if_neg hopen, if_neg hclose]

/-- What is captured by a lexer, and that a code fragment is what is captured. -/
structure CapturesExactly (lexer : Lexer source) : Prop where
  /-- A block whose braces match is captured as it is written, and what is behind it is left. -/
  block : ∀ w g rest, lexer.Ahead (w ++ '\x7b' :: (g ++ '\x7d' :: rest)) → IsGap false w →
    Balanced g → ∃ lexer', lexer.capture = (.ok ⟨String.ofList g, lexer.pos.after w⟩, lexer') ∧
      lexer.Behind (w ++ '\x7b' :: (g ++ ['\x7d'])) rest lexer'
  /-- Wherever items are read, the block behind `GLSL` and a name makes a fragment with its text. -/
  fragment : ∀ w g rest, lexer.Ahead (w ++ '\x7b' :: (g ++ '\x7d' :: rest)) → IsGap false w →
    Balanced g → ∀ before lexer₁ l name last nested e, Gives before (.word "GLSL") lexer₁ →
      Gives lexer₁ (.token l) lexer → IsName l name → last ≠ .word "GLSL" →
      ∃ lexer', lexer.Behind (w ++ '\x7b' :: (g ++ ['\x7d'])) rest lexer' ∧
        (itemsUpTo last nested e).run before = (itemsUpTo last nested
          { e with codeFragments := e.codeFragments ++ [⟨name, String.ofList g⟩] }).run lexer'
  /-- What is captured is such a block. -/
  captured : ∀ cs b lexer', lexer.Ahead cs → lexer.capture = (.ok b, lexer') →
    ∃ w g rest, cs = w ++ '\x7b' :: (g ++ '\x7d' :: rest) ∧ IsGap false w ∧ Balanced g ∧
      b.text = String.ofList g ∧ lexer.Behind (w ++ '\x7b' :: (g ++ ['\x7d'])) rest lexer'
  /-- Behind an opening brace the end of the input is met exactly when no brace matches it. -/
  unclosed : ∀ w r, lexer.Ahead (w ++ '\x7b' :: r) → IsGap false w →
    ((∃ pos, lexer.capture.1 = .error ⟨.endOfInput, pos⟩) ↔
      ¬ ∃ g rest, r = g ++ '\x7d' :: rest ∧ Balanced g)

theorem capture_of_balanced {w g rest : List Char}
    (hahead : lexer.Ahead (w ++ '\x7b' :: (g ++ '\x7d' :: rest))) (hw : IsGap false w)
    (hg : Balanced g) :
    ∃ lexer', lexer.capture = (.ok ⟨String.ofList g, lexer.pos.after w⟩, lexer') ∧
      lexer.Behind (w ++ '\x7b' :: (g ++ ['\x7d'])) rest lexer' :=
  hahead.capture_eq (Stream.capture_of_balanced rfl hw hg)

theorem capturesExactly (lexer : Lexer source) : lexer.CapturesExactly where
  block _ _ _ hahead hw hg := capture_of_balanced hahead hw hg
  fragment w g rest hahead hw hg before lexer₁ l name last nested e hword hl hname hlast := by
    obtain ⟨lexer', hcapture, hbehind⟩ := capture_of_balanced hahead hw hg
    refine ⟨lexer', hbehind, ?_⟩
    exact run_itemsUpTo_code hlast hword hname (.cons hl (.single (.raw hcapture))) nested e
  captured cs b lexer' hahead hcapture := by
    obtain ⟨s', hstream, _⟩ := (answersAlike_tracks source).capture_eq hahead.tracks hcapture
    obtain ⟨w, g, hcs, hw, hg, htext⟩ := Stream.balanced_of_capture hstream
    dsimp only at hcs
    subst hcs
    obtain ⟨_, hcapture', hbehind⟩ := capture_of_balanced hahead hw hg
    cases hcapture.symm.trans hcapture'
    exact ⟨w, g, s'.rest, rfl, hw, hg, rfl, hbehind⟩
  unclosed w r hahead hw := by
    constructor
    · rintro ⟨pos, herror⟩ ⟨g, rest, rfl, hg⟩
      obtain ⟨_, hcapture, _⟩ := capture_of_balanced hahead hw hg
      rw [hcapture] at herror
      cases herror
    · intro hr
      rw [hahead.tracks.capture.1, Stream.capture_of_unbalanced rfl hw hr]
      exact ⟨_, rfl⟩

end Lexer

open Grammar Grammar.Parser

/-- A word and a name, with a blank behind each of them. -/
theorem Stream.gives_heading {s : Stream} {w : String} {l : Lexeme} {q r rest : List Char}
    (hs : s.ended = false) (hrest : s.rest = q ++ ' ' :: (r ++ ' ' :: rest))
    (hw : (Lexeme.word w).Spells q) (hl : l.Spells r) :
    ∃ s₁ s₂, Gives s (.word w) s₁ ∧ Gives s₁ (.token l) s₂ ∧ s₂.rest = ' ' :: rest ∧
      s₂.pos = s.pos.after (q ++ ' ' :: r) ∧ s₂.ended = false := by
  have hblank : IsGap false [' '] := .blank (by simp) .nil
  have hbehind : ∀ (l : Lexeme) (rest : List Char), l.EndsBefore ([' '] ++ rest) := fun l _ =>
    Lexeme.endsBefore_of_gap hblank (by simp) l
  have hfirst := Stream.next_of_spells (w := []) hs hrest .nil hw (hbehind _ _)
  have hsecond := Stream.next_of_spells (s := ⟨_, s.pos.after ([] ++ q), false⟩) (w := [' '])
    rfl rfl hblank hl (hbehind l rest)
  refine ⟨_, _, .token hfirst, .token hsecond, rfl, ?_, rfl⟩
  simp

/-- The source `GLSL`, a name and a block with the text `g`. -/
def codeSource (name g : List Char) : String :=
  String.ofList ("GLSL".toList ++ ' ' :: (name ++ ' ' :: '\x7b' :: (g ++ ['\x7d'])))

/-- A fragment keeps its text character by character. -/
theorem Effect.parse_codeSource {l : Lexeme} {r g : List Char} {name : String} (hl : l.Spells r)
    (hname : IsName l name) (hg : Balanced g) :
    (Effect.parse (codeSource r g)).result =
      .ok { codeFragments := [⟨name, String.ofList g⟩] } := by
  have hblank : IsGap false [' '] := .blank (by simp) .nil
  have hword : (Lexeme.word "GLSL").Spells "GLSL".toList :=
    @Lexeme.Spells.word 'G' ['L', 'S', 'L'] (by decide) (by simp)
  have hrest : (Stream.ofString (codeSource r g)).rest =
      "GLSL".toList ++ ' ' :: (r ++ ' ' :: '\x7b' :: (g ++ ['\x7d'])) :=
    String.toList_ofList
  -- The word and the name are read, and then the rest of the source is a gap and the block.
  obtain ⟨s₁, s₂, hfirst, hsecond, hrest₂, _, hs₂⟩ := Stream.gives_heading rfl hrest hword hl
  have hraw : Gives s₂ (.raw (String.ofList g)) _ :=
    .raw (Stream.capture_of_balanced hrest₂ hblank hg)
  have hend : Lexeme.endOfInput ≠ .word "GLSL" := by simp
  have hfragment := run_itemsUpTo_code hend hfirst hname (.cons hsecond (.single hraw))
    (blockItems nestingLimit) {}
  have hlast (pos : Pos) := Stream.next_of_gap (s := ⟨[], pos, s₂.ended⟩) hs₂ .nil
  rw [Effect.result_parse_stream, source, hfragment, run_itemsUpTo_last (hlast _)]
  rfl

/-- Raw text is captured exactly. From any place of a source, what the lexer captures is the text
between an opening brace and the one that matches it; the source `GLSL`, a name and a block has a
fragment with that text; and the counter of open braces is at least one wherever the loop goes on,
so that closing a brace never takes it below zero. -/
theorem Effect.raw_text_exact :
    (∀ (source : String) (lexer : Lexer source), lexer.CapturesExactly) ∧
    (∀ l r name g, l.Spells r → IsName l name → Balanced g →
      (Effect.parse (codeSource r g)).result =
        .ok { codeFragments := [⟨name, String.ofList g⟩] }) ∧
    ∀ (source : String) (lexer l : Lexer source) front n, lexer.Counts front n l →
      lexer.CountsOpen front n l :=
  ⟨fun _ => Lexer.capturesExactly, fun _ _ _ _ hl hname hg => Effect.parse_codeSource hl hname hg,
    fun _ _ _ _ _ h => h.countsOpen⟩

/-- Braces in a quotation and in a comment count like any other. -/
def oddBlock : List Char := "\x7b\"é\x7d//\x7b\x7d".toList

/-- A comment with a brace, and the block behind it. -/
def oddSource : String := "/*\x7b*/\x7b\x7b\"é\x7d//\x7b\x7d\x7d;"

theorem oddBlock_exact :
    Balanced oddBlock ∧
    (∃ lexer, (Lexer.start oddSource).capture = (.ok ⟨String.ofList oddBlock, ⟨1, 6⟩⟩, lexer) ∧
      lexer.Ahead [';']) ∧
    (Effect.parse (codeSource ['F'] oddBlock)).result =
      .ok { codeFragments := [⟨"F", String.ofList oddBlock⟩] } := by
  have hbalanced : Balanced oddBlock := by
    have hsplit : Stream.splitBraces 0 (oddBlock ++ ['\x7d']) = some (oddBlock, []) := by decide
    exact (Stream.splitBraces_eq_some_iff.mp hsplit).2
  obtain ⟨hcaptures, hparses, _⟩ := Effect.raw_text_exact
  have hgap : IsGap false "/*\x7b*/".toList := @IsGap.block _ ['\x7b'] [] (by decide) .nil
  have hname : (Lexeme.word "F").Spells ['F'] := @Lexeme.Spells.word 'F' [] (by decide) (by simp)
  obtain ⟨lexer, hcapture, hbehind⟩ :=
    (hcaptures _ (.start oddSource)).block _ oddBlock [';'] ⟨[], rfl, rfl⟩ hgap hbalanced
  exact ⟨hbalanced, ⟨lexer, hcapture, hbehind.ahead⟩, hparses _ _ "F" _ hname .word hbalanced⟩

end Kfx
