import Kfx.Proofs.Grammar.Outline
import Kfx.Proofs.Grammar.RawText

/-!
# Shader blocks around a source

A source in one more block has the outline it had, one line further down and between two more
braces, so it is parsed as before until its deepest block is above the limit.
-/
namespace Kfx

open Grammar Grammar.Parser

namespace Pos

/-- Along a line only the column moves. -/
theorem after_of_line {cs : List Char} (h : '\n' ∉ cs) (p : Pos) :
    p.after cs = ⟨p.line, p.column + cs.length⟩ := by
  induction cs generalizing p with
  | nil => rfl
  | cons c cs ih =>
    rw [List.mem_cons, not_or] at h
    rw [after_cons, ih h.2, next, if_neg (Ne.symm h.1), List.length_cons]
    simp only [Pos.mk.injEq, true_and]
    omega

end Pos

/-- A word is written on one line. -/
theorem Lexeme.Spells.not_mem_feed {n : String} {r : List Char} (h : (Lexeme.word n).Spells r) :
    '\n' ∉ r := by
  cases h with
  | word hc hcs =>
    rw [List.mem_cons, not_or]
    refine ⟨?_, fun hfeed => ?_⟩
    · rintro rfl
      exact absurd hc (by decide)
    · exact absurd (hcs _ hfeed) (by decide)

/-- Of a gap before it, a token keeps only the place. -/
theorem Stream.next_skip_gap {w : List Char} (hw : IsGap false w) (rest : List Char) (p : Pos) :
    Stream.next ⟨w ++ rest, p, false⟩ = Stream.next ⟨rest, p.after w, false⟩ := by
  unfold Stream.next
  rw [Trivia.skip_gap hw]
  rfl

namespace Grammar

/-- A source in a `Shader` block, on lines of its own. -/
def wrap (n A : String) : String :=
  "Shader " ++ n ++ " \x7b\n" ++ A ++ "\n\x7d"

def wraps (n : String) : Nat → String → String
  | 0, A => A
  | k + 1, A => wrap n (wraps n k A)

/-- The braces of a source in a `Shader` block. -/
def wrapBraces (n : String) (braces : List Brace) : List Brace :=
  .opens ⟨1, n.length + 9⟩ :: (braces.map (Brace.down 1) ++ [.closes])

def wrapsBraces (n : String) : Nat → List Brace → List Brace
  | 0, braces => braces
  | k + 1, braces => wrapBraces n (wrapsBraces n k braces)

theorem toList_wrap (n A : String) : (wrap n A).toList = "Shader".toList ++ ' ' ::
    (n.toList ++ ' ' :: '\x7b' :: '\n' :: (A.toList ++ ['\n', '\x7d'])) := by
  simp [wrap]

variable {n A : String} {braces : List Brace} {ds : List Definition} {s' : Stream}

/-- Behind a source and a line feed stands the brace that closes the block. -/
theorem outline_closed (h : Outline .endOfInput (Stream.ofString A) braces ds s') :
    ∃ pos, Outline (.symbol .rightBrace) ((Stream.ofString A).continued ['\x7d']) braces ds
      ⟨[], pos, false⟩ := by
  refine ⟨(s'.pos.next '\n').next '\x7d', h.continued fun t pos hnext => ⟨pos.next '\n', ?_⟩⟩
  rw [Stream.next_continued_of_end hnext]
  obtain ⟨_, cs, _, hfound, rfl⟩ := Stream.next_eq_ok.mp hnext
  cases Stream.eq_nil_of_endOfInput hfound
  rfl

/-- One more block around a source is one more pair of braces around its outline. -/
theorem outline_wrap (hn : (Lexeme.word n).Spells n.toList)
    (h : Outline .endOfInput (Stream.ofString A) braces ds s') :
    ∃ s'', Outline .endOfInput (Stream.ofString (wrap n A)) (wrapBraces n braces)
      (.effectName n :: ds) s'' := by
  have hblank : IsGap false [' '] := .blank (by simp) .nil
  have hfeed : IsGap false ['\n'] := .blank (by simp) .nil
  have hshader : (Lexeme.word "Shader").Spells "Shader".toList :=
    @Lexeme.Spells.word 'S' ['h', 'a', 'd', 'e', 'r'] (by decide) (by simp)
  -- The word, the name and the brace stand on the first line.
  obtain ⟨s₁, s₂, hword, hname, hrest, hpos, hs₂⟩ :=
    Stream.gives_heading (s := .ofString (wrap n A)) rfl (toList_wrap n A) hshader hn
  have hcolumn : s₂.pos = ⟨1, n.length + 8⟩ := by
    have hline : '\n' ∉ "Shader".toList ++ ' ' :: n.toList := by simpa using hn.not_mem_feed
    have hlength : n.toList.length = n.length := String.length_toList
    rw [hpos, Pos.after_of_line hline]
    simp [Stream.ofString, Pos.start, hlength]
    omega
  have hbrace : s₂.next = (.ok ⟨.symbol .leftBrace, ⟨1, n.length + 9⟩⟩,
      ⟨['\n'] ++ (A.toList ++ ['\n', '\x7d']), ⟨1, n.length + 10⟩, false⟩) := by
    have hnext := Stream.next_of_spells hs₂ hrest hblank (.symbol .leftBrace) trivial
    rw [hcolumn] at hnext
    exact hnext
  -- Behind the brace the source starts one line further down, and the block ends behind it.
  obtain ⟨pos, hclosed⟩ := outline_closed h
  have hinner := (hclosed.down 1).congr (Stream.next_skip_gap hfeed _ ⟨1, n.length + 10⟩)
  have hend : Outline .endOfInput (Stream.down 1 ⟨[], pos, false⟩) [] [] _ := .last rfl
  have hshader := Outline.shader hword hname .word hbrace hinner hend
  rw [List.append_nil] at hshader
  exact ⟨_, hshader⟩

theorem outline_wraps (hn : (Lexeme.word n).Spells n.toList)
    (h : Outline .endOfInput (Stream.ofString A) braces ds s') (k : Nat) :
    ∃ s'', Outline .endOfInput (Stream.ofString (wraps n k A)) (wrapsBraces n k braces)
      (List.replicate k (.effectName n) ++ ds) s'' := by
  induction k with
  | zero => exact ⟨s', h⟩
  | succ k ih =>
    obtain ⟨s₁, hinner⟩ := ih
    exact outline_wrap hn hinner

/-- A block around a source is one level more. -/
theorem depth_wrapBraces (h : Outline .endOfInput (Stream.ofString A) braces ds s') :
    depth (wrapBraces n braces) = depth braces + 1 := by
  have hdown : counter 1 (braces.map (Brace.down 1)) = 1 := (h.down 1).counter_eq 1
  have hopenings : openings 0 (wrapBraces n braces) = ⟨1, ⟨1, n.length + 9⟩⟩ ::
      (openings 0 braces).map fun o => ⟨o.level + 1, o.pos.down 1⟩ := by
    rw [wrapBraces, openings_block hdown, openings_down, h.openings_add 0 1]
    simp [openings]
  have hle : ∀ limit, depth (wrapBraces n braces) ≤ limit ↔ depth braces + 1 ≤ limit := by
    intro limit
    rw [depth_le, hopenings]
    cases limit with
    | zero => simp
    | succ limit => simp [depth_le]
  exact Nat.le_antisymm ((hle _).mpr (Nat.le_refl _)) ((hle _).mp (Nat.le_refl _))

theorem depth_wrapsBraces (hn : (Lexeme.word n).Spells n.toList)
    (h : Outline .endOfInput (Stream.ofString A) braces ds s') (k : Nat) :
    depth (wrapsBraces n k braces) = depth braces + k := by
  induction k with
  | zero => rfl
  | succ k ih =>
    obtain ⟨s₁, hinner⟩ := outline_wraps hn h k
    rw [wrapsBraces, depth_wrapBraces hinner, ih, Nat.add_assoc]

end Grammar

namespace Effect

variable {text : String} {braces : List Brace} {ds : List Definition} {s' : Stream}

/-- What a source with an outline is parsed to. -/
theorem result_parse_of_outline (h : Outline .endOfInput (Stream.ofString text) braces ds s') :
    (Effect.parse text).result = (firstAt (nestingLimit + 1) 0 braces).elim
      (.ok (.ofDefinitions ds)) fun o => .error (.tooDeep nestingLimit o.pos) := by
  have hrun := h.run_itemsUpTo (by simp) 0 nestingLimit {}
  rw [Nat.zero_add, ← ofDefinitions_eq_foldl] at hrun
  rw [result_parse_stream, source, hrun]
  cases firstAt (nestingLimit + 1) 0 braces with
  | none => rfl
  | some o => rfl

theorem name_ofDefinitions_replicate {k : Nat} (hk : 1 ≤ k) (n : String) :
    (ofDefinitions (List.replicate k (.effectName n))).name = n := by
  obtain ⟨k, rfl⟩ := Nat.exists_eq_add_of_le' hk
  simp [ofDefinitions, Definition.effectName?, List.replicate_succ']

/-- The blocks around a source give the name, if there are none in it, and nothing else. -/
theorem ofDefinitions_wrapped {A : String}
    (h : Outline .endOfInput (Stream.ofString A) braces ds s') {k : Nat} (hk : 1 ≤ k) (n : String) :
    ofDefinitions (List.replicate k (.effectName n) ++ ds) = { ofDefinitions ds with
      name := if braces.isEmpty then n else (ofDefinitions ds).name } := by
  have hname : (ofDefinitions (List.replicate k (.effectName n) ++ ds)).name =
      if braces.isEmpty then n else (ofDefinitions ds).name := by
    by_cases hbraces : braces = []
    · have hunnamed : ∀ name, .effectName name ∉ ds := fun name hname =>
        h.named_iff.mpr ⟨name, hname⟩ hbraces
      rw [name_ofDefinitions_append_of_unnamed hunnamed, name_ofDefinitions_replicate hk, hbraces]
      rfl
    · obtain ⟨name, hmem⟩ := h.named_iff.mp hbraces
      rw [name_ofDefinitions_append hmem, if_neg (by simpa using hbraces)]
  rw [← hname]
  simp [ofDefinitions, List.filterMap_append]

end Effect

/-- The braces of the `Shader` blocks of a source. -/
def HasOutline (text : String) (braces : List Brace) : Prop :=
  ∃ ds l, Outline .endOfInput (Lexer.start text) braces ds l

/-- A source has the outlines of its stream. -/
theorem hasOutline_iff {text : String} {braces : List Brace} : HasOutline text braces ↔
    ∃ ds s', Outline .endOfInput (Stream.ofString text) braces ds s' := by
  have halike := answersAlike_tracks text
  constructor
  · rintro ⟨ds, l, houtline⟩
    obtain ⟨s', houtline', _⟩ := houtline.transfer halike (Lexer.tracks_start text)
    exact ⟨ds, s', houtline'⟩
  · rintro ⟨ds, s', houtline⟩
    obtain ⟨l, houtline', _⟩ := houtline.transfer halike.flip (Lexer.tracks_start text)
    exact ⟨ds, l, houtline'⟩

/-- What comes of a source with some braces in `k` blocks of one name. -/
structure WrapsTo (A n : String) (k : Nat) (a : Effect) (braces : List Brace) : Prop where
  /-- The blocks that there are then. -/
  outline : HasOutline (wraps n k A) (wrapsBraces n k braces)
  /-- Up to the limit nothing but the name can change, and that only if there was no block. -/
  parsed : depth braces + k ≤ 64 → (Effect.parse (wraps n k A)).result =
    .ok { a with name := if braces.isEmpty then n else a.name }
  /-- Above the limit the first block of the level behind it is refused. -/
  refused : 64 < depth braces + k → ∃ o, firstAt 65 0 (wrapsBraces n k braces) = some o ∧
    (Effect.parse (wraps n k A)).result = .error (.tooDeep 64 o.pos)

/-- Behind a block the counter is where it was before it, and items are read on with as many levels
left. -/
structure DepthRestored : Prop where
  counted : ∀ {S : Type} [TokenSource S] pos inner ds (s s' : S) d,
    Outline (.symbol .rightBrace) s inner ds s' →
    counter d (.opens pos :: (inner ++ [.closes])) = d
  levels : ∀ {S : Type} [TokenSource S] last levels e (s s₁ s₂ s₃ s₄ : S) l name pos e',
    (∀ w, last ≠ .word w) →
    Gives s (.word "Shader") s₁ → Gives s₁ (.token l) s₂ → IsName l name →
    TokenSource.next s₂ = (.ok ⟨.symbol .leftBrace, pos⟩, s₃) →
    (blockItems levels pos { e with name }).run s₃ = .ok (e', s₄) →
    (itemsUpTo last (blockItems levels) e).run s = (itemsUpTo last (blockItems levels) e').run s₄

theorem depthRestored : DepthRestored where
  counted pos inner ds s s' d h := by
    rw [counter, counter_append, h.counter_eq]
    rfl
  levels last levels e s s₁ s₂ s₃ s₄ l name pos e' hlast word hl hname brace hrun := by
    rw [run_itemsUpTo_shader hlast word hl hname brace, hrun]
    rfl

/-- The outline alone decides whether a source can be wrapped. -/
theorem wrapsTo {A n : String} {k : Nat} {a : Effect} {braces : List Brace}
    (hA : (Effect.parse A).result = .ok a) (hn : (Lexeme.word n).Spells n.toList) (hk : 1 ≤ k)
    (h : HasOutline A braces) : WrapsTo A n k a braces := by
  obtain ⟨ds, s', houtline⟩ := hasOutline_iff.mp h
  obtain ⟨s'', hwrapped⟩ := outline_wraps hn houtline k
  have hparse := Effect.result_parse_of_outline hwrapped
  have hlimit : firstAt (nestingLimit + 1) 0 (wrapsBraces n k braces) = none ↔
      depth braces + k ≤ 64 := by
    rw [firstAt_eq_none (Nat.zero_le _), ← depth_le, depth_wrapsBraces hn houtline]
    rfl
  have ha : a = .ofDefinitions ds := by
    have hparseA := Effect.result_parse_of_outline houtline
    rw [hA] at hparseA
    cases hfirst : firstAt (nestingLimit + 1) 0 braces with
    | none =>
      rw [hfirst] at hparseA
      exact Except.ok.inj hparseA
    | some o =>
      rw [hfirst] at hparseA
      cases hparseA
  refine ⟨hasOutline_iff.mpr ⟨_, s'', hwrapped⟩, fun hle => ?_, fun hlt => ?_⟩
  · rw [hparse, hlimit.mpr hle, Effect.ofDefinitions_wrapped houtline hk, ha]
    rfl
  · cases hfirst : firstAt (nestingLimit + 1) 0 (wrapsBraces n k braces) with
    | none => exact absurd (hlimit.mp hfirst) (by omega)
    | some o => exact ⟨o, hfirst, by rw [hparse, hfirst]; rfl⟩

/-- A source that is parsed has an outline. -/
theorem hasOutline_of_parsed {A : String} {a : Effect} (hA : (Effect.parse A).result = .ok a) :
    ∃ braces, HasOutline A braces := by
  obtain ⟨l, hrun⟩ := Effect.result_parse_eq_ok.mp hA
  obtain ⟨ps, ds, hreads, hitems, _⟩ := run_source_eq_ok.mp hrun
  obtain ⟨braces, houtline⟩ := outline_of_items 64 hitems hreads
  exact ⟨braces, ds, l, houtline⟩

/-- Blocks around a source change nothing up to the limit. A source that is parsed has an outline,
and for each outline of it: in `k` blocks it is parsed as long as it nests no deeper than the limit
less `k`, and then only its name may come from these blocks; otherwise the first block that would be
one above the limit is refused at its brace. The depth is the same behind a block as before it. -/
theorem Effect.parse_wraps_up_to_limit (A n : String) (k : Nat) (a : Effect)
    (hA : (Effect.parse A).result = .ok a) (hn : (Lexeme.word n).Spells n.toList) (hk : 1 ≤ k) :
    (∃ braces, HasOutline A braces) ∧ (∀ braces, HasOutline A braces → WrapsTo A n k a braces) ∧
      DepthRestored :=
  ⟨hasOutline_of_parsed hA, fun _ h => wrapsTo hA hn hk h, depthRestored⟩

/-- A block with a comment that looks like another one. -/
def lonelyShader : String := "/*\n\x7b*/ Shader \"\" \x7b \x7d"

theorem lonelyShader_wraps_up_to_limit :
    (Effect.parse lonelyShader).result = .ok {} ∧ (Lexeme.word "_s").Spells "_s".toList ∧
    HasOutline lonelyShader [.opens ⟨2, 15⟩, .closes] ∧
    (Effect.parse (wraps "_s" 63 lonelyShader)).result = .ok {} ∧
    (Effect.parse (wraps "_s" 64 lonelyShader)).result = .error (.tooDeep 64 ⟨66, 15⟩) := by
  have hparse : (Effect.parse lonelyShader).result = .ok {} := by decide +kernel
  have hword : (Lexeme.word "_s").Spells "_s".toList :=
    @Lexeme.Spells.word '_' ['s'] (by decide) (by simp)
  have houtline : HasOutline lonelyShader [.opens ⟨2, 15⟩, .closes] := by
    have hname : IsName (.quoted "") (String.ofList []) := .quoted (by simpa using .nil)
    exact hasOutline_iff.mpr
      ⟨_, _, .shader (.token rfl) (.token rfl) hname rfl (.last rfl) (.last rfl)⟩
  have hfits := ((Effect.parse_wraps_up_to_limit lonelyShader "_s" 63 {} hparse hword
    (by decide)).2.1 _ houtline).parsed (by decide)
  obtain ⟨o, hfirst, hrefused⟩ := ((Effect.parse_wraps_up_to_limit lonelyShader "_s" 64 {} hparse
    hword (by decide)).2.1 _ houtline).refused (by decide)
  have hfound : firstAt 65 0 (wrapsBraces "_s" 64 [.opens ⟨2, 15⟩, .closes]) =
      some ⟨65, ⟨66, 15⟩⟩ := by decide
  cases hfirst.symm.trans hfound
  exact ⟨hparse, hword, houtline, hfits, hrefused⟩

end Kfx
