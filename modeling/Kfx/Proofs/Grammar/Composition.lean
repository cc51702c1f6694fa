import Kfx.Proofs.Grammar.Displacement
import Kfx.Proofs.Grammar.Recognition.Source
import Kfx.Proofs.Grammar.Simulation
import Kfx.Proofs.Token.Continuation

/-!
# One source behind another

There is a line feed between the two. Nothing is read ahead over the end of an item, so the first
source is read as it was, and the second one as if it stood alone some lines further down; only the
effect it starts with is the one that the first has made.
-/
namespace Kfx

namespace Grammar

open Kfx.Stream

variable {s s' : Stream} {x : Piece} {ps : List Piece} {text : List Char}

theorem Gives.down {k : Nat} (h : Gives s x s') : Gives (s.down k) x (s'.down k) := by
  cases h with
  | token hnext => exact .token (next_down_ok hnext)
  | raw hcapture => exact .raw (capture_down_ok hcapture)

theorem Reads.down {k : Nat} (h : Reads s ps s') : Reads (s.down k) ps (s'.down k) := by
  induction h with
  | nil => exact .nil
  | cons first _ ih => exact .cons first.down ih

theorem Gives.not_ended (h : Gives s x s') (hs' : s'.ended = false) :
    s.ended = false ∧ x ≠ .token .endOfInput := by
  cases h with
  | token hnext =>
    obtain ⟨hs, cs, _, _, rfl⟩ := next_eq_ok.mp hnext
    refine ⟨hs, ?_⟩
    rintro ⟨⟩
    cases hs'
  | raw hcapture =>
    obtain ⟨_, _, _, _, _, _, rfl⟩ := capture_eq_ok.mp hcapture
    exact ⟨hs', by simp⟩

theorem Reads.not_ended (h : Reads s ps s') (hs' : s'.ended = false) : s.ended = false := by
  induction h with
  | nil => exact hs'
  | cons first _ ih => exact (first.not_ended (ih hs')).1

theorem Gives.continued (h : Gives s x s') (hs' : s'.ended = false) (more : List Char) :
    Gives (s.continued more) x (s'.continued more) := by
  have hx := (h.not_ended hs').2
  cases h with
  | token hnext => exact .token (next_continued hnext (fun hl => hx (hl ▸ rfl)) more)
  | raw hcapture => exact .raw (capture_continued hcapture more)

/-- What is read before the end is read just so when the text goes on. -/
theorem Reads.continued (h : Reads s ps s') (hs' : s'.ended = false) (more : List Char) :
    Reads (s.continued more) ps (s'.continued more) := by
  induction h with
  | nil => exact .nil
  | cons first rest ih => exact .cons (first.continued (rest.not_ended hs') more) (ih hs')

theorem Reads.within (h : Reads s ps s') (hs : s.Within text) : s'.Within text := by
  induction h with
  | nil => exact hs
  | cons first _ ih =>
    cases first with
    | token hnext => exact ih (hs.next hnext)
    | raw hcapture => exact ih (hs.capture hcapture)

end Grammar

namespace Stream

theorem ofString_append (A B : String) :
    ofString (A ++ "\n" ++ B) = (ofString A).continued B.toList := by
  simp [ofString, continued]

/-- Behind a text and a line feed a new line starts. -/
theorem start_below (text : List Char) :
    (Pos.start.after text).next '\n' = Pos.start.down (1 + text.count '\n') := by
  have hline := Pos.line_after Pos.start text
  unfold Pos.next Pos.down
  rw [if_pos rfl, hline]
  simp only [Pos.start, Pos.mk.injEq, and_true]
  omega

end Stream

namespace Grammar

open Kfx.Grammar.Parser

variable {S : Type} [TokenSource S] {s s₁ : S} {nested : Pos → Effect → Parser Effect}
variable {Nested : Phrase (List Definition)} {last : Lexeme}

/-- Items are read one after another, whatever stands behind them. -/
theorem run_itemsUpTo_of_many (hnested : ReadsItems nested Nested) (hlast : ∀ w, last ≠ .word w)
    {ps : List Piece} {lists : List (List Definition)} (many : Many (IsItem Nested) ps lists)
    (reads : Reads s ps s₁) (e : Effect) :
    (itemsUpTo last nested e).run s =
      (itemsUpTo last nested (lists.flatten.foldl .add e)).run s₁ := by
  induction many generalizing s e with
  | nil =>
    cases reads
    rfl
  | @cons _ _ ds _ head tail ih =>
    obtain ⟨w, qs, rfl⟩ := head.starts
    obtain ⟨s₂, hfront, hback⟩ := reads_append.mp reads
    obtain ⟨s₃, ⟨hnext⟩, hitem⟩ := reads_cons.mp hfront
    have hrun : ∀ pos, (item nested e w pos).run s₃ = .ok (ds.foldl .add e, s₂) :=
      fun _ => (run_item_eq_ok hnested).mpr ⟨qs, ds, hitem, head, rfl⟩
    have hstep : (itemsUpTo last nested e).run s =
        (itemsUpTo last nested (ds.foldl .add e)).run s₂ := by
      rw [itemsUpTo, run_loop, hnext]
      dsimp only
      rw [if_neg (hlast w).symm, run_bind, hrun]
      rfl
    rw [hstep, ih hback, List.flatten_cons, List.foldl_append]

/-- How items are read depends on the next token only. -/
theorem run_itemsUpTo_congr {s' : S}
    (h : TokenSource.next s = TokenSource.next s') (e : Effect) :
    (itemsUpTo last nested e).run s = (itemsUpTo last nested e).run s' := by
  rw [itemsUpTo, run_loop, run_loop, h]

/-- Items end at the token that ends them. -/
theorem run_itemsUpTo_last {s' : S} {pos : Pos}
    (h : TokenSource.next s = (.ok ⟨last, pos⟩, s')) (e : Effect) :
    (itemsUpTo last nested e).run s = .ok (e, s') := by
  rw [itemsUpTo, run_loop, h]
  dsimp only
  rw [if_pos rfl]
  rfl

/-- Behind a source that is parsed, another one is parsed as it would be some lines further down,
from the effect of the first. -/
theorem run_source_append {A : String} {ds : List Definition} {ps : List Piece} {s' : Stream}
    (reads : Reads (Stream.ofString A) (ps ++ [.token .endOfInput]) s') (items : IsItems 64 ps ds)
    (B : String) : source.run (Stream.ofString (A ++ "\n" ++ B)) =
      (itemsUpTo .endOfInput (blockItems 64) (ds.foldl .add {})).run
        ((Stream.ofString B).down (1 + A.toList.count '\n')) := by
  obtain ⟨lists, many, rfl⟩ :
      ∃ lists, Many (IsItem (IsItems 63)) ps lists ∧ lists.flatten = ds := by
    obtain ⟨many⟩ := items
    exact ⟨_, many, rfl⟩
  obtain ⟨s₁, hreads, hend⟩ := reads_append.mp reads
  obtain ⟨hnext⟩ := reads_single.mp hend
  -- The first source is read up to its end, which is now a line feed, and the next token is the
  -- first one of the second source.
  have hended := (Stream.next_eq_ok.mp hnext).1
  have hplace := (hreads.within (Stream.within_ofString A)).pos_end hnext
  have hbelow := Stream.next_continued_of_end hnext B.toList
  rw [hplace, Stream.start_below] at hbelow
  rw [Stream.ofString_append]
  calc source.run ((Stream.ofString A).continued B.toList)
      = (itemsUpTo .endOfInput (blockItems 64) (lists.flatten.foldl .add {})).run
          (s₁.continued B.toList) :=
        run_itemsUpTo_of_many (readsItems_blockItems 63) (by simp) many
          (hreads.continued hended B.toList) {}
    _ = _ := run_itemsUpTo_congr hbelow _

/-- Two sources that are parsed make a source that is parsed, with the definitions of both. -/
theorem run_source_append_eq_ok {A B : String} {ps qs : List Piece} {front back : List Definition}
    {s' t' : Stream} (reads : Reads (Stream.ofString A) (ps ++ [.token .endOfInput]) s')
    (items : IsItems 64 ps front)
    (readsB : Reads (Stream.ofString B) (qs ++ [.token .endOfInput]) t')
    (itemsB : IsItems 64 qs back) : ∃ s', source.run (Stream.ofString (A ++ "\n" ++ B)) =
      .ok (.ofDefinitions (front ++ back), s') := by
  refine ⟨t'.down (1 + A.toList.count '\n'), ?_⟩
  rw [run_source_append reads items B, run_itemsUpTo_eq_ok (readsItems_blockItems 63) (by simp)]
  refine ⟨qs, back, readsB.down, itemsB, ?_⟩
  rw [Effect.ofDefinitions_eq_foldl, List.foldl_append]

/-- A `Shader` block stands in the source, at the top or inside another one. -/
def OpensShader (text : String) : Prop :=
  ∃ pieces definitions l name, Reads (Lexer.start text) (pieces ++ [.token .endOfInput]) l ∧
    IsItems 64 pieces definitions ∧ .effectName name ∈ definitions

end Grammar

namespace Effect

open Grammar

/-- Each of the nine arrays of `m` is that of `a` and behind it that of `b`. -/
structure ArraysAppend (a b m : Effect) : Prop where
  vertexLayouts : m.vertexLayouts = a.vertexLayouts ++ b.vertexLayouts
  localResources : m.localResources = a.localResources ++ b.localResources
  globalResources : m.globalResources = a.globalResources ++ b.globalResources
  constantBuffers : m.constantBuffers = a.constantBuffers ++ b.constantBuffers
  uniformBuffers : m.uniformBuffers = a.uniformBuffers ++ b.uniformBuffers
  storageBuffers : m.storageBuffers = a.storageBuffers ++ b.storageBuffers
  renderStates : m.renderStates = a.renderStates ++ b.renderStates
  passes : m.passes = a.passes ++ b.passes
  codeFragments : m.codeFragments = a.codeFragments ++ b.codeFragments

variable {front back : List Definition}

theorem arraysAppend_ofDefinitions (front back : List Definition) :
    ArraysAppend (ofDefinitions front) (ofDefinitions back) (ofDefinitions (front ++ back)) := by
  constructor <;> exact List.filterMap_append

/-- The names given last are the ones that count. -/
theorem name_ofDefinitions_append {name : String} (h : .effectName name ∈ back) :
    (ofDefinitions (front ++ back)).name = (ofDefinitions back).name := by
  have hne : back.filterMap Definition.effectName? ≠ [] := by
    intro hnil
    have hnone := List.filterMap_eq_nil_iff.mp hnil _ h
    cases hnone
  have hlast := List.getLast?_eq_some_getLast hne
  unfold ofDefinitions
  dsimp only
  rw [List.filterMap_append, List.getLastD_eq_getLast?, List.getLastD_eq_getLast?,
    List.getLast?_append, hlast]
  rfl

theorem name_ofDefinitions_append_of_unnamed (h : ∀ name, .effectName name ∉ back) :
    (ofDefinitions (front ++ back)).name = (ofDefinitions front).name := by
  have hnil : back.filterMap Definition.effectName? = [] := by
    refine List.filterMap_eq_nil_iff.mpr ?_
    intro d hd
    cases d with
    | effectName name => exact absurd hd (h name)
    | _ => rfl
  simp [ofDefinitions, hnil]

/-- Parsing goes source by source. Behind a source that is parsed, another one adds its definitions
to each array, and gives its name if it has one; if it is wrong, the error is the one that it has
alone, as many lines further down as the first source and the line feed take. -/
theorem parse_append_line (A B : String) (a : Effect) (hA : (Effect.parse A).result = .ok a) :
    (∀ b, (Effect.parse B).result = .ok b →
      ∃ m, (Effect.parse (A ++ "\n" ++ B)).result = .ok m ∧ ArraysAppend a b m ∧
        (OpensShader B → m.name = b.name) ∧ (¬OpensShader B → m.name = a.name)) ∧
    ∀ x, (Effect.parse B).result = .error x →
      (Effect.parse (A ++ "\n" ++ B)).result = .error (x.down (1 + A.toList.count '\n')) := by
  obtain ⟨s', hrun⟩ := result_parse_stream_eq_ok.mp hA
  obtain ⟨ps, front, reads, items, rfl⟩ := run_source_eq_ok.mp hrun
  constructor
  · intro b hB
    obtain ⟨t', hrunB⟩ := result_parse_stream_eq_ok.mp hB
    obtain ⟨qs, back, readsB, itemsB, rfl⟩ := run_source_eq_ok.mp hrunB
    obtain ⟨u', hrunAB⟩ := run_source_append_eq_ok reads items readsB itemsB
    refine ⟨.ofDefinitions (front ++ back), result_parse_stream_eq_ok.mpr ⟨u', hrunAB⟩,
      arraysAppend_ofDefinitions front back, ?_, ?_⟩
    · -- The block may be known from another derivation of the source, which makes the same effects.
      rintro ⟨qs', back', l, name, hpieces, items', hname⟩
      obtain ⟨t₂, reads'⟩ := reads_start_iff.mp ⟨l, hpieces⟩
      have hrunB' := run_source_eq_ok.mpr ⟨qs', back', reads', items', rfl⟩
      obtain ⟨u₂, hrunAB'⟩ := run_source_append_eq_ok reads items reads' items'
      have hb := (Prod.mk.inj (Except.ok.inj (hrunB.symm.trans hrunB'))).1
      have hm := (Prod.mk.inj (Except.ok.inj (hrunAB.symm.trans hrunAB'))).1
      rw [hm, hb]
      exact name_ofDefinitions_append hname
    · intro hnone
      refine name_ofDefinitions_append_of_unnamed ?_
      intro name hname
      obtain ⟨l, hpieces⟩ := reads_start_iff.mpr ⟨t', readsB⟩
      exact hnone ⟨qs, back, l, name, hpieces, itemsB, hname⟩
  · intro x hB
    rw [result_parse_stream_eq_error, run_source_append reads items B]
    exact run_items_down (result_parse_stream_eq_error.mp hB) _ _

def fragmentLines : String := "GLSL F \x7ba\x7d // one\nGLSL G \x7bb\x7d /* two */"

def namedFragment : String := "Shader S \x7b GLSL H \x7bc\x7d \x7d"

def namelessPass : String := "\nPass ;"

theorem fragmentLines_append_line :
    (Effect.parse fragmentLines).result = .ok { codeFragments := [⟨"F", "a"⟩, ⟨"G", "b"⟩] } ∧
    (Effect.parse namedFragment).result =
      .ok { name := "S", codeFragments := [⟨"H", "c"⟩] } ∧
    (∃ m, (Effect.parse (fragmentLines ++ "\n" ++ namedFragment)).result = .ok m ∧
      m.codeFragments = [⟨"F", "a"⟩, ⟨"G", "b"⟩, ⟨"H", "c"⟩]) ∧
    (Effect.parse namelessPass).result =
      .error (.unexpected "name" ⟨.symbol .semicolon, ⟨2, 6⟩⟩) ∧
    (Effect.parse (fragmentLines ++ "\n" ++ namelessPass)).result =
      .error (.unexpected "name" ⟨.symbol .semicolon, ⟨4, 6⟩⟩) := by
  have hfront : (Effect.parse fragmentLines).result =
      .ok { codeFragments := [⟨"F", "a"⟩, ⟨"G", "b"⟩] } := by decide +kernel
  have hback : (Effect.parse namedFragment).result =
      .ok { name := "S", codeFragments := [⟨"H", "c"⟩] } := by decide +kernel
  have hwrong : (Effect.parse namelessPass).result =
      .error (.unexpected "name" ⟨.symbol .semicolon, ⟨2, 6⟩⟩) := by decide +kernel
  obtain ⟨m, hparse, harrays, _⟩ :=
    (parse_append_line fragmentLines namedFragment _ hfront).1 _ hback
  have herror := (parse_append_line fragmentLines namelessPass _ hfront).2 _ hwrong
  exact ⟨hfront, hback, ⟨m, hparse, harrays.codeFragments⟩, hwrong, herror⟩

end Effect

end Kfx
