import Kfx.Grammar.RenderState
import Kfx.Proofs.Grammar.Recognition.Layout

/-!
# Recognition of render states

Render states are read as the grammar has them, in both forms. What is written for alpha stands
behind a comma, so an entry is over only when no comma follows.
-/
namespace Kfx.Grammar

open Kfx.Grammar.Parser

variable {S : Type} [TokenSource S] {s s' : S}

/-- A part behind a comma, or what stands for it when there is no comma. -/
theorem run_afterComma_eq_ok {α : Type} {p : Parser α} {a b : α}
    (hready : Ready s' (· ≠ .symbol .comma)) :
    (eat .comma >>= fun taken => if taken = true then p else Pure.pure a).run s = .ok (b, s') ↔
      b = a ∧ s = s' ∨ ∃ s₁, Gives s (.symbol .comma) s₁ ∧ p.run s₁ = .ok (b, s') := by
  simp only [run_bind_eq_ok, run_eat_eq_ok]
  constructor
  · rintro ⟨taken, s₁, ⟨rfl, hcomma⟩ | ⟨rfl, rfl, _⟩, h⟩
    · exact .inr ⟨s₁, hcomma, h⟩
    · cases h
      exact .inl ⟨rfl, rfl⟩
  · rintro (⟨rfl, rfl⟩ | ⟨s₁, hcomma, h⟩)
    · exact ⟨false, s, .inr ⟨rfl, rfl, hready⟩, rfl⟩
    · exact ⟨true, s₁, .inl ⟨rfl, hcomma⟩, h⟩

/-- The words that switch blending off are not factors. -/
theorem ne_off_of_blendFactor {w : String} {factor : BlendFactor}
    (h : (w, factor) ∈ blendFactors) : ¬(w = "Off" ∨ w = "None") := by
  rintro (rfl | rfl) <;> simp [blendFactors] at h

theorem run_blendFactor_eq_ok {factor : BlendFactor} :
    blendFactor.run s = .ok (factor, s') ↔
      ∃ w, (w, factor) ∈ blendFactors ∧ Gives s (.word w) s' := by
  simp only [blendFactor, run_expectFrom_eq_ok, blendFactor_eq_some_iff]

theorem run_blendOp_eq_ok {op : BlendOp} :
    blendOp.run s = .ok (op, s') ↔ ∃ w, (w, op) ∈ blendOps ∧ Gives s (.word w) s' := by
  simp only [blendOp, run_expectFrom_eq_ok, blendOp_eq_some_iff]

/-- Blend factors are read by their grammar, if no comma follows them. -/
theorem run_blend_eq_ok {state : RenderState} {mode : BlendMode}
    (hready : Ready s' (· ≠ .symbol .comma)) :
    (blend state.blend).run s = .ok (mode, s') ↔
      ∃ ps x, Reads s ps s' ∧ IsBlend ps x ∧ mode = (state.put x).blend := by
  unfold blend
  constructor
  · intro h
    obtain ⟨⟨w, _⟩, s₁, hword, h⟩ := run_bind_eq_ok.mp h
    have hw : Gives s (.word w) s₁ := .token (run_expectWord_eq_ok.mp hword)
    dsimp only at h
    split at h
    · next hoff =>
      cases h
      exact ⟨_, _, .single hw, .off hoff, rfl⟩
    · split at h
      · cases h
      · next src hsrc =>
        rw [blendFactor_eq_some_iff] at hsrc
        obtain ⟨dst, s₂, hfactor, h⟩ := run_bind_eq_ok.mp h
        obtain ⟨w₂, hdst, hw₂⟩ := run_blendFactor_eq_ok.mp hfactor
        obtain ⟨⟨alphaSrc, alphaDst⟩, s₃, halpha, hpure⟩ := run_bind_eq_ok.mp h
        cases hpure
        rcases (run_afterComma_eq_ok hready).mp halpha with ⟨heq, rfl⟩ | ⟨s₄, hcomma, hfactors⟩
        · cases heq
          exact ⟨_, _, .cons hw (.single hw₂), .color hsrc hdst, rfl⟩
        · simp only [run_bind_eq_ok, run_blendFactor_eq_ok] at hfactors
          obtain ⟨_, s₅, ⟨w₃, halphaSrc, hw₃⟩, _, s₆, ⟨w₄, halphaDst, hw₄⟩, hpure⟩ := hfactors
          cases hpure
          exact ⟨_, _, .cons hw (.cons hw₂ (.cons hcomma (.cons hw₃ (.single hw₄)))),
            .alpha hsrc hdst halphaSrc halphaDst, rfl⟩
  · rintro ⟨ps, x, hreads, hx, rfl⟩
    cases hx with
    | off hoff =>
      obtain ⟨hword⟩ := reads_single.mp hreads
      refine run_bind_eq_ok.mpr ⟨_, s', run_expectWord_eq_ok.mpr hword, ?_⟩
      simp only [hoff, if_true]
      rfl
    | color hsrc hdst =>
      simp only [reads_cons, reads_nil] at hreads
      obtain ⟨s₁, ⟨hword⟩, s₂, hw₂, rfl⟩ := hreads
      refine run_bind_eq_ok.mpr ⟨_, s₁, run_expectWord_eq_ok.mpr hword, ?_⟩
      simp only [ne_off_of_blendFactor hsrc, if_false, blendFactor_eq_some_iff.mpr hsrc]
      refine run_bind_eq_ok.mpr ⟨_, s₂, run_blendFactor_eq_ok.mpr ⟨_, hdst, hw₂⟩, ?_⟩
      exact run_bind_eq_ok.mpr
        ⟨_, s₂, (run_afterComma_eq_ok hready).mpr (.inl ⟨rfl, rfl⟩), rfl⟩
    | @alpha _ _ _ _ _ _ alphaSrc alphaDst hsrc hdst halphaSrc halphaDst =>
      simp only [reads_cons, reads_nil] at hreads
      obtain ⟨s₁, ⟨hword⟩, s₂, hw₂, s₃, hcomma, s₄, hw₃, s₅, hw₄, rfl⟩ := hreads
      refine run_bind_eq_ok.mpr ⟨_, s₁, run_expectWord_eq_ok.mpr hword, ?_⟩
      simp only [ne_off_of_blendFactor hsrc, if_false, blendFactor_eq_some_iff.mpr hsrc]
      refine run_bind_eq_ok.mpr ⟨_, s₂, run_blendFactor_eq_ok.mpr ⟨_, hdst, hw₂⟩, ?_⟩
      refine run_bind_eq_ok.mpr
        ⟨(alphaSrc, alphaDst), s₅, (run_afterComma_eq_ok hready).mpr (.inr ⟨s₃, hcomma, ?_⟩), rfl⟩
      simp only [run_bind_eq_ok, run_blendFactor_eq_ok]
      exact ⟨_, s₄, ⟨_, halphaSrc, hw₃⟩, _, s₅, ⟨_, halphaDst, hw₄⟩, rfl⟩

/-- An entry that is one word out of a table. -/
theorem run_choice_eq_ok {α : Type} {what : String} {lookup : String → Option α}
    {table : List (String × α)} (htable : ∀ {w a}, lookup w = some a ↔ (w, a) ∈ table)
    {state state' : RenderState} (sort : α → StateEntry) :
    (expectFrom what lookup >>= fun a => Pure.pure (state.put (sort a))).run s = .ok (state', s') ↔
      ∃ w a, (w, a) ∈ table ∧ Gives s (.word w) s' ∧ state' = state.put (sort a) := by
  simp only [run_bind_eq_ok, run_expectFrom_eq_ok, htable]
  constructor
  · rintro ⟨a, s₁, ⟨w, ha, hw⟩, hpure⟩
    cases hpure
    exact ⟨w, a, ha, hw, rfl⟩
  · rintro ⟨w, a, ha, hw, rfl⟩
    exact ⟨a, s', ⟨w, ha, hw⟩, rfl⟩

/-- The entries of a render state are read by their grammar. -/
theorem entryOf_stateEntry :
    EntryOf stateEntry IsStateEntry Always RenderState.put InStatement := by
  constructor
  · intro ps x hx
    cases hx <;> exact ⟨_, _, rfl⟩
  intro S _ s s' state w pos state' hready
  have hcomma : Ready s' (· ≠ .symbol .comma) := by
    refine hready.imp ?_
    rintro l ((rfl | ⟨_, rfl⟩) | rfl) <;> simp
  unfold stateEntry
  constructor
  · intro h
    split at h
    · obtain ⟨w, _, hmode, hw, rfl⟩ := (run_choice_eq_ok cullMode_eq_some_iff .cull).mp h
      exact ⟨_, _, .single hw, .cull hmode, trivial, rfl⟩
    · obtain ⟨w, _, hop, hw, rfl⟩ := (run_choice_eq_ok compareOp_eq_some_iff .depthTest).mp h
      exact ⟨_, _, .single hw, .depthTest hop, trivial, rfl⟩
    · obtain ⟨w, _, hon, hw, rfl⟩ := (run_choice_eq_ok switch_eq_some_iff .depthWrite).mp h
      exact ⟨_, _, .single hw, .depthWrite hon, trivial, rfl⟩
    · obtain ⟨mode, s₁, hblend, hpure⟩ := run_bind_eq_ok.mp h
      cases hpure
      obtain ⟨ps, x, hreads, hx, rfl⟩ := (run_blend_eq_ok hcomma).mp hblend
      refine ⟨ps, x, hreads, .blend hx, trivial, ?_⟩
      cases hx <;> rfl
    · obtain ⟨color, s₁, hcolor, h⟩ := run_bind_eq_ok.mp h
      obtain ⟨w₁, hcolor, hw₁⟩ := run_blendOp_eq_ok.mp hcolor
      obtain ⟨alpha, s₂, halpha, hpure⟩ := run_bind_eq_ok.mp h
      cases hpure
      rcases (run_afterComma_eq_ok hcomma).mp halpha with ⟨rfl, rfl⟩ | ⟨s₃, hsep, hop⟩
      · exact ⟨_, _, .single hw₁, .blendOp hcolor, trivial, rfl⟩
      · obtain ⟨w₂, halpha, hw₂⟩ := run_blendOp_eq_ok.mp hop
        exact ⟨_, _, .cons hw₁ (.cons hsep (.single hw₂)), .blendOpAlpha hcolor halpha, trivial,
          rfl⟩
    · obtain ⟨w, _, hmode, hw, rfl⟩ := (run_choice_eq_ok polygonMode_eq_some_iff .polygonMode).mp h
      exact ⟨_, _, .single hw, .polygonMode hmode, trivial, rfl⟩
    · obtain ⟨width, s₁, hwidth, hpure⟩ := run_bind_eq_ok.mp h
      cases hpure
      obtain ⟨l, rfl, hl⟩ := run_expectNumber_eq_ok.mp hwidth
      exact ⟨_, _, .single hl, .lineWidth, trivial, rfl⟩
    · cases h
  · rintro ⟨ps, x, hreads, hx, _, rfl⟩
    cases hx with
    | cull h =>
      exact (run_choice_eq_ok cullMode_eq_some_iff .cull).mpr
        ⟨_, _, h, reads_single.mp hreads, rfl⟩
    | depthTest h =>
      exact (run_choice_eq_ok compareOp_eq_some_iff .depthTest).mpr
        ⟨_, _, h, reads_single.mp hreads, rfl⟩
    | depthWrite h =>
      exact (run_choice_eq_ok switch_eq_some_iff .depthWrite).mpr
        ⟨_, _, h, reads_single.mp hreads, rfl⟩
    | blend hx =>
      have hblend : (blend state.blend).run s = .ok ((state.put x).blend, s') :=
        (run_blend_eq_ok hcomma).mpr ⟨ps, x, hreads, hx, rfl⟩
      refine run_bind_eq_ok.mpr ⟨_, s', hblend, ?_⟩
      cases hx <;> rfl
    | blendOp hcolor =>
      have hw₁ := reads_single.mp hreads
      refine run_bind_eq_ok.mpr ⟨_, s', run_blendOp_eq_ok.mpr ⟨_, hcolor, hw₁⟩, ?_⟩
      exact run_bind_eq_ok.mpr
        ⟨_, s', (run_afterComma_eq_ok hcomma).mpr (.inl ⟨rfl, rfl⟩), rfl⟩
    | blendOpAlpha hcolor halpha =>
      simp only [reads_cons, reads_nil] at hreads
      obtain ⟨s₁, hw₁, s₂, hsep, s₃, hw₂, rfl⟩ := hreads
      refine run_bind_eq_ok.mpr ⟨_, s₁, run_blendOp_eq_ok.mpr ⟨_, hcolor, hw₁⟩, ?_⟩
      have hop : blendOp.run s₂ = .ok (_, s₃) := run_blendOp_eq_ok.mpr ⟨_, halpha, hw₂⟩
      exact run_bind_eq_ok.mpr
        ⟨_, s₃, (run_afterComma_eq_ok hcomma).mpr (.inr ⟨s₂, hsep, hop⟩), rfl⟩
    | polygonMode h =>
      exact (run_choice_eq_ok polygonMode_eq_some_iff .polygonMode).mpr
        ⟨_, _, h, reads_single.mp hreads, rfl⟩
    | lineWidth =>
      have hl := reads_single.mp hreads
      exact run_bind_eq_ok.mpr ⟨_, s', run_expectNumber_eq_ok.mpr ⟨_, rfl, hl⟩, rfl⟩

theorem run_renderState_eq_ok {name : String} {state : RenderState} :
    (renderState name).run s = .ok (state, s') ↔
      ∃ ps entries, Reads s ps s' ∧ Block (Statement IsStateEntry) ps entries ∧
        state = entries.foldl .put { name } := by
  unfold renderState bodyOfStatements
  rw [entryOf_stateEntry.statement.run_block_eq_ok]
  simp

theorem IsRenderState.starts {ps : List Piece} {state : RenderState} (h : IsRenderState ps state) :
    ∃ l name qs, ps = .token l :: qs ∧ IsName l name := by
  obtain ⟨hname, _⟩ := h
  exact ⟨_, _, _, rfl, hname⟩

/-- A state whose name is already read. -/
theorem run_renderState_of_name {l : Lexeme} {name : String} {state : RenderState}
    (hname : IsName l name) : (renderState name).run s = .ok (state, s') ↔
      ∃ ps, Reads s ps s' ∧ IsRenderState (.token l :: ps) state := by
  rw [run_renderState_eq_ok]
  constructor
  · rintro ⟨ps, entries, hreads, hblock, rfl⟩
    exact ⟨ps, hreads, .mk (.mk hname hblock)⟩
  · rintro ⟨ps, hreads, ⟨hname', hblock⟩⟩
    cases hname.unique hname'
    exact ⟨ps, _, hreads, hblock, rfl⟩

/-- The two forms of a definition of states, and the rounds of the one in braces. -/
theorem renderStates_eq_loop : ∃ round,
    (∀ {S : Type} [TokenSource S] {s s' : S} {states states'},
      (renderStates states).run s = .ok (states', s') ↔
      (∃ s₁, Gives s (.symbol .leftBrace) s₁ ∧ (loop round states).run s₁ = .ok (states', s')) ∨
        ∃ l name state s₁, IsName l name ∧ Gives s (.token l) s₁ ∧
          (renderState name).run s₁ = .ok (state, s') ∧ states' = states ++ [state]) ∧
    RoundOf round IsListedState Always (fun states state => states ++ [state])
      (Closing (.symbol .rightBrace)) fun _ => True := by
  apply Exists.intro
  constructor
  · intro S _ s s' states states'
    unfold renderStates
    simp only [run_bind_eq_ok, run_token_eq_ok]
    constructor
    · rintro ⟨⟨l, _⟩, s₁, hnext, h⟩
      split at h
      · next hl =>
        cases hl
        exact .inl ⟨s₁, .token hnext, h⟩
      · split at h
        · cases h
        · next name hname =>
          obtain ⟨state, s₂, hstate, hpure⟩ := run_bind_eq_ok.mp h
          cases hpure
          exact .inr
            ⟨_, name, state, s₁, nameOf?_eq_some_iff.mp hname, .token hnext, hstate, rfl⟩
    · rintro (⟨s₁, ⟨hnext⟩, h⟩ | ⟨l, name, state, s₁, hname, ⟨hnext⟩, hstate, rfl⟩)
      · exact ⟨_, s₁, hnext, h⟩
      · refine ⟨_, s₁, hnext, ?_⟩
        split
        · next hl =>
          cases hl
          cases hname
        · simp only [nameOf?_eq_some_iff.mpr hname, run_bind_eq_ok]
          exact ⟨state, s', hstate, rfl⟩
  refine RoundOf.ofClosing trivial ?starts rfl ?goesOn ?again
  case starts =>
    rintro ps state ⟨_⟩
    exact ⟨_, _, rfl, trivial, by simp⟩
  case goesOn =>
    intro S _ s s' states l pos b hl h
    split at h
    · next hbrace => exact hl hbrace
    · simp only [run_bind_eq_ok] at h
      obtain ⟨_, _, _, _, _, _, hagain⟩ := h
      cases hagain
    · cases h
  case again =>
    intro S _ s s' states l pos states' _ _
    constructor
    · intro h
      split at h
      · cases h
      · next hl =>
        cases hl
        simp only [run_bind_eq_ok, run_expectName_eq_ok] at h
        obtain ⟨name, s₁, ⟨l', hname, hl'⟩, state, s₂, hstate, hagain⟩ := h
        cases hagain
        obtain ⟨ps, hreads, hstate⟩ := (run_renderState_of_name hname).mp hstate
        exact ⟨_, state, .cons hl' hreads, .mk hstate, trivial, rfl⟩
      · cases h
    · rintro ⟨ps, state, hreads, ⟨hstate⟩, _, rfl⟩
      obtain ⟨l', name, qs, rfl, hname⟩ := hstate.starts
      obtain ⟨s₁, hl', hrest⟩ := reads_cons.mp hreads
      have hrun : (renderState name).run s₁ = .ok (state, s') :=
        (run_renderState_of_name hname).mpr ⟨qs, hrest, hstate⟩
      simp only [run_bind_eq_ok, run_expectName_eq_ok]
      exact ⟨name, s₁, ⟨l', hname, hl'⟩, state, s', hrun, rfl⟩

/-- The states behind the word `RenderState`: a single one, or several in braces. -/
theorem run_renderStates_eq_ok {states states' : List RenderState} :
    (renderStates states).run s = .ok (states', s') ↔
      ∃ ps new, Reads s ps s' ∧ states' = states ++ new ∧
        (Block IsListedState ps new ∨ ∃ state, IsRenderState ps state ∧ new = [state]) := by
  obtain ⟨round, hforms, hround⟩ := renderStates_eq_loop
  rw [hforms]
  simp only [hround.run_loop_closing_eq_ok, foldl_concat]
  constructor
  · rintro (⟨s₁, hopen, ps, new, hreads, hmany, _, hstates⟩ |
      ⟨l, name, state, s₁, hname, hl, hstate, hstates⟩)
    · exact ⟨_, new, .cons hopen hreads, hstates, .inl (.mk hmany)⟩
    · obtain ⟨ps, hreads, hstate⟩ := (run_renderState_of_name hname).mp hstate
      exact ⟨_, [state], .cons hl hreads, hstates, .inr ⟨state, hstate, rfl⟩⟩
  · rintro ⟨ps, new, hreads, hstates, ⟨⟨hmany⟩⟩ | ⟨state, hstate, rfl⟩⟩
    · obtain ⟨s₁, hopen, hrest⟩ := reads_cons.mp hreads
      exact .inl ⟨s₁, hopen, _, new, hrest, hmany, chain_always _ _ _, hstates⟩
    · obtain ⟨l, name, qs, rfl, hname⟩ := hstate.starts
      obtain ⟨s₁, hl, hrest⟩ := reads_cons.mp hreads
      have hrun := (run_renderState_of_name hname).mpr ⟨qs, hrest, hstate⟩
      exact .inr ⟨l, name, state, s₁, hname, hl, hrun, hstates⟩

end Kfx.Grammar
