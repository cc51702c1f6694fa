import Kfx.Proofs.Grammar.Recognition.RenderState

/-!
# Recognition of passes, items and whole sources

A pass refuses a second reference of one sort where it meets it, the grammar asks that no sort
stands twice in the whole pass; `chain_unlinked_iff` says that this is the same. The main statement
is that a source is parsed to an effect exactly when the grammar has the effect for its pieces.
-/
namespace Kfx

def Pass.link? (p : Pass) : LinkSort → Option Link
  | .vertexLayout => p.vertexLayout
  | .resources => p.resources
  | .constantBuffer => p.constantBuffer
  | .renderState => p.renderState

theorem Pass.link?_add_link (p : Pass) (sort sort' : LinkSort) (name : String) :
    (p.add (.link sort name)).link? sort' =
      if sort' = sort then some ⟨name, none⟩ else p.link? sort' := by
  cases sort <;> cases sort' <;> rfl

theorem Pass.link?_add_stage (p : Pass) (sort : LinkSort) (kind : StageKind) (name : String) :
    (p.add (.stage kind name)).link? sort = p.link? sort := by
  cases sort <;> rfl

namespace Grammar

open Kfx.Grammar.Parser

variable {S : Type} [TokenSource S] {s s' : S} {pos : Pos}

/-- A reference may stand where the pass has none of its sort. -/
def Unlinked (p : Pass) (x : PassEntry) : Prop :=
  ∀ sort, x.sort? = some sort → p.link? sort = none

/-- The sorts are met once each, and none of them in the pass before. -/
theorem chain_unlinked_iff {p : Pass} {entries : List PassEntry} :
    Chain Unlinked Pass.add p entries ↔
      (entries.filterMap PassEntry.sort?).Nodup ∧
        ∀ sort ∈ entries.filterMap PassEntry.sort?, p.link? sort = none := by
  induction entries generalizing p with
  | nil => simp [Chain]
  | cons x entries ih =>
    cases x with
    | link sort name =>
      have hrest : ∀ sort', (p.add (.link sort name)).link? sort' = none ↔
          sort' ≠ sort ∧ p.link? sort' = none := by
        intro sort'
        rw [Pass.link?_add_link]
        split <;> simp_all
      simp only [Chain, ih, hrest, Unlinked, PassEntry.sort?, List.filterMap_cons_some,
        List.nodup_cons, List.mem_cons, Option.some.injEq]
      grind
    | stage kind name =>
      have hskip : (PassEntry.stage kind name :: entries).filterMap PassEntry.sort? =
          entries.filterMap PassEntry.sort? := List.filterMap_cons_none rfl
      have hfree : Unlinked p (.stage kind name) := nofun
      simp only [Chain, ih, hskip, hfree, Pass.link?_add_stage, true_and]

/-- The name behind the word of a reference, where the pass may have that reference. -/
theorem run_link_eq_ok {p p' : Pass} {present : Option Link} {what : String} {f : Link → Pass} :
    (link p present what pos >>= fun l => Pure.pure (f l)).run s = .ok (p', s') ↔
      present = none ∧ ∃ l name, IsName l name ∧ Gives s (.token l) s' ∧
        p' = f ⟨name, none⟩ := by
  unfold link
  constructor
  · intro h
    obtain ⟨x, s₁, hlink, hpure⟩ := run_bind_eq_ok.mp h
    cases hpure
    dsimp only at hlink
    split at hlink
    · obtain ⟨_, _, hfail, _⟩ := run_bind_eq_ok.mp hlink
      cases hfail
    · next hpresent =>
      obtain ⟨name, s₂, hname, hpure⟩ := run_bind_eq_ok.mp hlink
      cases hpure
      obtain ⟨l, hname, hl⟩ := run_expectName_eq_ok.mp hname
      exact ⟨by simpa using hpresent, l, name, hname, hl, rfl⟩
  · rintro ⟨rfl, l, name, hname, hl, rfl⟩
    refine run_bind_eq_ok.mpr ⟨⟨name, none⟩, s', ?_, rfl⟩
    exact run_bind_eq_ok.mpr ⟨name, s', run_expectName_eq_ok.mpr ⟨l, hname, hl⟩, rfl⟩

/-- The words of references declare no stages. -/
theorem not_stageWord_of_link (sort : LinkSort) (kind : StageKind) :
    (sort.keyword, kind) ∉ stageWords := by
  cases sort <;> simp [LinkSort.keyword, stageWords]

/-- The entries of a pass are read by their grammar, a reference only where there is none yet. -/
theorem entryOf_passEntry : EntryOf passEntry IsPassEntry Unlinked Pass.add InStatement := by
  constructor
  · intro ps x hx
    cases hx <;> exact ⟨_, _, rfl⟩
  intro S _ s s' p w pos p' _
  unfold passEntry
  constructor
  · intro h
    have hlink : ∀ sort name, p.link? sort = none → Unlinked p (.link sort name) := by
      intro sort name hnone sort' hsort
      cases hsort
      exact hnone
    split at h
    · obtain ⟨hnone, l, name, hname, hl, rfl⟩ := run_link_eq_ok.mp h
      exact ⟨_, _, .single hl, .link .vertexLayout hname, hlink _ _ hnone, rfl⟩
    · obtain ⟨hnone, l, name, hname, hl, rfl⟩ := run_link_eq_ok.mp h
      exact ⟨_, _, .single hl, .link .resources hname, hlink _ _ hnone, rfl⟩
    · obtain ⟨hnone, l, name, hname, hl, rfl⟩ := run_link_eq_ok.mp h
      exact ⟨_, _, .single hl, .link .constantBuffer hname, hlink _ _ hnone, rfl⟩
    · obtain ⟨hnone, l, name, hname, hl, rfl⟩ := run_link_eq_ok.mp h
      exact ⟨_, _, .single hl, .link .renderState hname, hlink _ _ hnone, rfl⟩
    · split at h
      · cases h
      · next kind hkind =>
        obtain ⟨name, s₁, hname, hpure⟩ := run_bind_eq_ok.mp h
        cases hpure
        obtain ⟨l, hname, hl⟩ := run_expectName_eq_ok.mp hname
        exact ⟨_, _, .single hl, .stage (stageWord_eq_some_iff.mp hkind) hname, nofun, rfl⟩
  · rintro ⟨ps, x, hreads, hx, hallowed, rfl⟩
    cases hx with
    | link sort hname =>
      have hl := reads_single.mp hreads
      have hnone := hallowed sort rfl
      cases sort <;> exact run_link_eq_ok.mpr ⟨hnone, _, _, hname, hl, rfl⟩
    | stage hkind hname =>
      have hl := reads_single.mp hreads
      split
      · exact absurd hkind (not_stageWord_of_link .vertexLayout _)
      · exact absurd hkind (not_stageWord_of_link .resources _)
      · exact absurd hkind (not_stageWord_of_link .constantBuffer _)
      · exact absurd hkind (not_stageWord_of_link .renderState _)
      · simp only [stageWord_eq_some_iff.mpr hkind]
        exact run_bind_eq_ok.mpr ⟨_, s', run_expectName_eq_ok.mpr ⟨_, hname, hl⟩, rfl⟩

theorem run_pass_eq_ok {p : Pass} :
    pass.run s = .ok (p, s') ↔ ∃ ps, Reads s ps s' ∧ IsPass ps p := by
  unfold pass bodyOfStatements
  rw [entryOf_passEntry.statement.run_namedBlock_eq_ok]
  constructor
  · rintro ⟨ps, name, entries, hreads, hblock, hchain, rfl⟩
    exact ⟨ps, hreads, .mk hblock (chain_unlinked_iff.mp hchain).1⟩
  · rintro ⟨ps, hreads, ⟨hblock, honce⟩⟩
    refine ⟨ps, _, _, hreads, hblock, chain_unlinked_iff.mpr ⟨honce, ?_⟩, rfl⟩
    intro sort _
    cases sort <;> rfl

theorem run_codeFragment_eq_ok {f : CodeFragment} :
    codeFragment.run s = .ok (f, s') ↔
      ∃ l name text, IsName l name ∧ Reads s [.token l, .raw text] s' ∧
        f = ⟨name, text⟩ := by
  unfold codeFragment
  simp only [run_bind_eq_ok, run_expectName_eq_ok, run_capture_eq_ok]
  constructor
  · rintro ⟨name, s₁, ⟨l, hname, hl⟩, ⟨text, _⟩, s₂, hcapture, hpure⟩
    cases hpure
    exact ⟨l, name, text, hname, .cons hl (.single (.raw hcapture)), rfl⟩
  · rintro ⟨l, name, text, hname, hreads, rfl⟩
    simp only [reads_cons, reads_nil] at hreads
    obtain ⟨s₁, hl, s₂, hraw, rfl⟩ := hreads
    obtain ⟨_, hcapture⟩ := hraw.capture_eq
    exact ⟨name, s₁, ⟨l, hname, hl⟩, _, s₂, hcapture, rfl⟩

/-- What is read by a parser for the items of a block, the closing brace included. -/
def ReadsItems (nested : Pos → Effect → Parser Effect) (Nested : Phrase (List Definition)) : Prop :=
  ∀ {S : Type} [TokenSource S] (pos e) (s : S) (e' s'), (nested pos e).run s = .ok (e', s') ↔
    ∃ ps ds, Reads s (ps ++ [.symbol .rightBrace]) s' ∧ Nested ps ds ∧ e' = ds.foldl .add e

theorem foldl_add_renderStates (e : Effect) (states : List RenderState) :
    (states.map Definition.renderState).foldl .add e =
      { e with renderStates := e.renderStates ++ states } := by
  induction states generalizing e with
  | nil => simp
  | cons state states ih => simp [ih, Effect.add]

/-- An item is read by its grammar, if nested items are. -/
theorem run_item_eq_ok {nested : Pos → Effect → Parser Effect} {Nested : Phrase (List Definition)}
    (hnested : ReadsItems nested Nested) {e e' : Effect} {w : String} :
    (item nested e w pos).run s = .ok (e', s') ↔
      ∃ ps ds, Reads s ps s' ∧ IsItem Nested (.word w :: ps) ds ∧ e' = ds.foldl .add e := by
  unfold item
  constructor
  · intro h
    split at h
    · obtain ⟨name, s₁, hname, h⟩ := run_bind_eq_ok.mp h
      obtain ⟨l, hname, hl⟩ := run_expectName_eq_ok.mp hname
      dsimp only at h
      rw [run_warned] at h
      obtain ⟨opening, s₂, hopening, h⟩ := run_bind_eq_ok.mp h
      obtain ⟨_, _, hopen⟩ := run_expectSymbol_eq_ok.mp hopening
      obtain ⟨ps, ds, hreads, hitems, rfl⟩ := (hnested _ _ _ _ _).mp h
      exact ⟨_, _, .cons hl (.cons (.token hopen) hreads), .shader hname hitems, rfl⟩
    · obtain ⟨ps, ds, hreads, hblock, rfl⟩ := run_layout_eq_ok.mp h
      exact ⟨ps, ds, hreads, .layout hblock, rfl⟩
    · obtain ⟨_, hfragment, rfl⟩ := (run_bind_add_eq_ok .codeFragment).mp h
      obtain ⟨l, name, text, hname, hreads, rfl⟩ := run_codeFragment_eq_ok.mp hfragment
      exact ⟨_, _, hreads, .code hname, rfl⟩
    · obtain ⟨states, s₁, hstates, hpure⟩ := run_bind_eq_ok.mp h
      cases hpure
      obtain ⟨ps, new, hreads, rfl, hblock | ⟨state, hstate, rfl⟩⟩ :=
        run_renderStates_eq_ok.mp hstates
      · exact ⟨ps, _, hreads, .renderStates hblock, (foldl_add_renderStates e new).symm⟩
      · exact ⟨ps, _, hreads, .renderState hstate, rfl⟩
    · obtain ⟨_, hpass, rfl⟩ := (run_bind_add_eq_ok .pass).mp h
      obtain ⟨ps, hreads, hpass⟩ := run_pass_eq_ok.mp hpass
      exact ⟨ps, _, hreads, .pass hpass, rfl⟩
    · next h₁ h₂ h₃ h₄ h₅ =>
      obtain ⟨_, _, hsay, hpure⟩ := run_bind_eq_ok.mp h
      cases hsay
      cases hpure
      have hw : w ∉ ["Shader", "Layout", "GLSL", "RenderState", "Pass"] := by
        simp only [List.mem_cons, List.not_mem_nil, or_false, not_or]
        exact ⟨h₁, h₂, h₃, h₄, h₅⟩
      exact ⟨[], [], .nil, .other hw, rfl⟩
  · rintro ⟨ps, ds, hreads, hx, rfl⟩
    cases hx with
    | shader hname hitems =>
      simp only [reads_cons] at hreads
      obtain ⟨s₁, hl, s₂, ⟨hopen⟩, hreads⟩ := hreads
      refine run_bind_eq_ok.mpr ⟨_, s₁, run_expectName_eq_ok.mpr ⟨_, hname, hl⟩, ?_⟩
      dsimp only
      rw [run_warned]
      refine run_bind_eq_ok.mpr ⟨_, s₂, run_expectSymbol_eq_ok.mpr ⟨_, rfl, hopen⟩, ?_⟩
      exact (hnested _ _ _ _ _).mpr ⟨_, _, hreads, hitems, rfl⟩
    | layout hblock => exact run_layout_eq_ok.mpr ⟨ps, ds, hreads, hblock, rfl⟩
    | code hname =>
      have hfragment := run_codeFragment_eq_ok.mpr ⟨_, _, _, hname, hreads, rfl⟩
      exact (run_bind_add_eq_ok .codeFragment).mpr ⟨_, hfragment, rfl⟩
    | renderState hstate =>
      have hstates : (renderStates e.renderStates).run s = .ok (e.renderStates ++ [_], s') :=
        run_renderStates_eq_ok.mpr ⟨ps, _, hreads, rfl, .inr ⟨_, hstate, rfl⟩⟩
      exact run_bind_eq_ok.mpr ⟨_, s', hstates, rfl⟩
    | renderStates hblock =>
      have hstates : (renderStates e.renderStates).run s = .ok (e.renderStates ++ _, s') :=
        run_renderStates_eq_ok.mpr ⟨ps, _, hreads, rfl, .inl hblock⟩
      rw [foldl_add_renderStates]
      exact run_bind_eq_ok.mpr ⟨_, s', hstates, rfl⟩
    | pass hpass =>
      have hrun := run_pass_eq_ok.mpr ⟨ps, hreads, hpass⟩
      exact (run_bind_add_eq_ok .pass).mpr ⟨_, hrun, rfl⟩
    | other hw =>
      cases hreads
      split
      iterate 5 simp at hw
      exact run_bind_eq_ok.mpr ⟨(), s, rfl, rfl⟩

theorem IsItem.starts {Nested : Phrase (List Definition)} {ps : List Piece} {ds : List Definition}
    (h : IsItem Nested ps ds) : ∃ w qs, ps = .word w :: qs := by
  cases h <;> exact ⟨_, _, rfl⟩

/-- Items stand in a row up to the token that ends them. -/
theorem itemsUpTo_eq_loop {nested : Pos → Effect → Parser Effect}
    {Nested : Phrase (List Definition)} (hnested : ReadsItems nested Nested) {last : Lexeme}
    (hlast : ∀ w, last ≠ .word w) : ∃ round, (∀ e, itemsUpTo last nested e = loop round e) ∧
      RoundOf round (IsItem Nested) Always (fun e ds => ds.foldl .add e) (Closing last)
        fun _ => True := by
  refine ⟨_, fun _ => rfl, RoundOf.ofClosing trivial ?starts ?close ?goesOn ?again⟩
  case starts =>
    intro ps ds hitem
    obtain ⟨w, qs, rfl⟩ := hitem.starts
    exact ⟨_, _, rfl, trivial, (hlast w).symm⟩
  case close =>
    intro S _ s e pos
    rw [if_pos rfl]
    rfl
  case goesOn =>
    intro S _ s s' e l pos e' hl h
    rw [if_neg hl] at h
    split at h
    · obtain ⟨_, _, _, hagain⟩ := run_bind_eq_ok.mp h
      cases hagain
    · cases h
  case again =>
    intro S _ s s' e l pos e' hl _
    rw [if_neg hl]
    constructor
    · intro h
      split at h
      · next w hw =>
        cases hw
        obtain ⟨e₁, s₁, hrun, hagain⟩ := run_bind_eq_ok.mp h
        cases hagain
        obtain ⟨ps, ds, hreads, hitem, rfl⟩ := (run_item_eq_ok hnested).mp hrun
        exact ⟨ps, ds, hreads, hitem, trivial, rfl⟩
      · cases h
    · rintro ⟨ps, ds, hreads, hitem, _, rfl⟩
      obtain ⟨w, qs, hpieces⟩ := hitem.starts
      cases hpieces
      have hrun : (item nested e w pos).run s = .ok (ds.foldl .add e, s') :=
        (run_item_eq_ok hnested).mpr ⟨ps, ds, hreads, hitem, rfl⟩
      exact run_bind_eq_ok.mpr ⟨_, s', hrun, rfl⟩

/-- Items and the token that ends them. -/
theorem run_itemsUpTo_eq_ok {nested : Pos → Effect → Parser Effect}
    {Nested : Phrase (List Definition)} (hnested : ReadsItems nested Nested) {last : Lexeme}
    (hlast : ∀ w, last ≠ .word w) {e e' : Effect} :
    (itemsUpTo last nested e).run s = .ok (e', s') ↔
      ∃ ps ds, Reads s (ps ++ [.token last]) s' ∧ Joined (IsItem Nested) ps ds ∧
        e' = ds.foldl .add e := by
  obtain ⟨round, hitems, hround⟩ := itemsUpTo_eq_loop hnested hlast
  rw [hitems, hround.run_loop_closing_eq_ok]
  constructor
  · rintro ⟨ps, lists, hreads, hmany, _, rfl⟩
    exact ⟨ps, _, hreads, .mk hmany, List.foldl_flatten.symm⟩
  · rintro ⟨ps, _, hreads, ⟨hmany⟩, rfl⟩
    exact ⟨ps, _, hreads, hmany, chain_always _ _ _, List.foldl_flatten⟩

/-- With no level left a block is refused at its brace, so no phrase may stand in it. -/
theorem readsItems_blockItems_zero : ReadsItems (blockItems 0) fun _ _ => False := by
  intro S _ pos e s e' s'
  constructor
  · intro h
    cases h
  · rintro ⟨_, _, _, hfalse, _⟩
    exact hfalse.elim

/-- A block in which `depth` more levels may be opened, besides its own. -/
theorem readsItems_blockItems (depth : Nat) :
    ReadsItems (blockItems (depth + 1)) (IsItems depth) := by
  induction depth with
  | zero =>
    intro S _ pos e s e' s'
    exact run_itemsUpTo_eq_ok readsItems_blockItems_zero (by simp)
  | succ depth ih =>
    intro S _ pos e s e' s'
    exact run_itemsUpTo_eq_ok ih (by simp)

/-- A whole source is read by the grammar, with `Shader` blocks nested up to the limit. -/
theorem run_source_eq_ok {e : Effect} :
    source.run s = .ok (e, s') ↔
      ∃ ps ds, Reads s (ps ++ [.token .endOfInput]) s' ∧ IsItems 64 ps ds ∧
        e = .ofDefinitions ds := by
  simp only [Effect.ofDefinitions_eq_foldl]
  exact run_itemsUpTo_eq_ok (readsItems_blockItems 63) (by simp)

end Grammar

open Grammar

/-- Parsing succeeds exactly on the sources whose pieces are items of the grammar, and the result is
the effect of the definitions that the items stand for. -/
theorem Effect.parse_recognizes_grammar (text : String) (e : Effect) :
    (Effect.parse text).result = .ok e ↔
      ∃ pieces definitions,
        (∃ l, Reads (Lexer.start text) (pieces ++ [.token .endOfInput]) l) ∧
          Grammar.IsItems 64 pieces definitions ∧ e = .ofDefinitions definitions := by
  rw [Effect.result_parse_eq_ok]
  constructor
  · rintro ⟨l, hrun⟩
    obtain ⟨pieces, definitions, hreads, hitems, heffect⟩ := Grammar.run_source_eq_ok.mp hrun
    exact ⟨pieces, definitions, ⟨l, hreads⟩, hitems, heffect⟩
  · rintro ⟨pieces, definitions, ⟨l, hreads⟩, hitems, heffect⟩
    exact ⟨l, Grammar.run_source_eq_ok.mpr ⟨pieces, definitions, hreads, hitems, heffect⟩⟩

/-- Blocks of each sort that has a name, with words and with quoted texts for names. -/
def namedBlocks : String :=
  "Shader S \x7b Pass \"a b\" \x7b \x7d RenderState R \x7b \x7d GLSL \"g\" \x7bx\x7d \x7d " ++
  "Pass P \x7b VertexShader \"g\" \x7d RenderState \"r\\n\" \x7b Cull Off \x7d " ++
  "GLSL H \x7by\x7d Shader \"T\" \x7b \x7d"

def namedDefinitions : List Definition :=
  [.effectName "S", .pass { name := "a b" }, .renderState { name := "R" },
    .codeFragment ⟨"g", "x"⟩, .pass { name := "P", stages := [⟨.vertex, ⟨"g", none⟩, []⟩] },
    .renderState { name := "r\n", cull := .none }, .codeFragment ⟨"H", "y"⟩, .effectName "T"]

theorem namedBlocks_recognized :
    (Effect.parse namedBlocks).result = .ok (.ofDefinitions namedDefinitions) := by
  have hquoted : IsName (.quoted "a b") "a b" ∧ IsName (.quoted "g") "g" ∧
      IsName (.quoted "r\\n") "r\n" ∧ IsName (.quoted "T") "T" :=
    ⟨isName_quoted (by decide), isName_quoted (by decide), isName_quoted (by decide),
      isName_quoted (by decide)⟩
  obtain ⟨hpass, hcode, hstate, hshader⟩ := hquoted
  -- Inside the first block the names go the other way round than behind it.
  have pass₁ : IsItem (IsItems 62) _ [.pass { name := "a b" }] :=
    .pass (.mk (.mk hpass (.mk .nil)) .nil)
  have state₁ : IsItem (IsItems 62) _ [.renderState { name := "R" }] :=
    .renderState (.mk (.mk .word (.mk .nil)))
  have code₁ : IsItem (IsItems 62) [_, _, .raw "x"] _ := .code hcode
  have inner : IsItems 63 _ _ := Joined.mk (.cons pass₁ (.cons state₁ (.cons code₁ .nil)))
  have block := IsItem.shader (.word (w := "S")) inner
  have stage₂ : IsPassEntry [.word "VertexShader", _] (.stage .vertex "g") :=
    .stage (by decide) hcode
  have pass₂ : IsItem (IsItems 63) _
      [.pass { name := "P", stages := [⟨.vertex, ⟨"g", none⟩, []⟩] }] :=
    .pass (.mk (.mk .word (.mk (.cons (.plain stage₂) .nil))) (by decide))
  have state₂ : IsItem (IsItems 63) _ [.renderState { name := "r\n", cull := .none }] :=
    .renderState (.mk (.mk hstate (.mk (.cons (.plain (.cull (w := "Off") (by decide))) .nil))))
  have code₂ : IsItem (IsItems 63) [_, .word "H", .raw "y"] _ := .code .word
  have empty := IsItem.shader hshader (Joined.mk .nil : IsItems 63 [] [])
  have items : IsItems 64 _ namedDefinitions :=
    Joined.mk (.cons block (.cons pass₂ (.cons state₂ (.cons code₂ (.cons empty .nil)))))
  refine (Effect.parse_recognizes_grammar _ _).mpr ⟨_, namedDefinitions, ?_, items, rfl⟩
  exact ⟨_, reads_of_follow (Option.some_get (by decide +kernel)).symm⟩

end Kfx
