import Kfx.Proofs.Grammar.Recognition.Loop
import Kfx.Proofs.Number.Literal

/-!
# Recognition of layouts

The parsers for the contents of a `Layout` block read the phrases of the grammar and nothing else:
data types, lists of stages, vertex layouts, resource blocks and buffers.
-/
namespace Kfx.Grammar

open Kfx.Grammar.Parser

variable {S : Type} [TokenSource S] {s s' : S} {l : Lexeme} {pos : Pos}

/-- The number of elements, from behind the opening bracket through the closing one. -/
theorem run_arrayLength_eq_ok {n : UInt32} :
    (arrayLength ⟨l, pos⟩).run s = .ok (n, s') ↔
      l = .symbol .rightBracket ∧ n = 0 ∧ s = s' ∨
        ∃ literal, l = .number literal ∧ IsCount literal n ∧
          Gives s (.symbol .rightBracket) s' := by
  unfold arrayLength
  constructor
  · intro h
    split at h
    · next hl =>
      cases h
      exact .inl ⟨hl, rfl, rfl⟩
    · next literal hl =>
      dsimp only at h
      split at h
      · obtain ⟨_, _, hfail, _⟩ := run_bind_eq_ok.mp h
        cases hfail
      · split at h
        · cases h
        · next count hcount =>
          simp only [run_bind_eq_ok, run_token_eq_ok] at h
          obtain ⟨⟨close, closePos⟩, s₂, hnext, h⟩ := h
          split at h
          · next hclose =>
            cases h
            cases hclose
            exact .inr ⟨literal, hl, toCount?_eq_some_iff.mp hcount, .token hnext⟩
          · obtain ⟨_, _, hfail, _⟩ := run_bind_eq_ok.mp h
            cases hfail
    · cases h
  · rintro (⟨rfl, rfl, rfl⟩ | ⟨literal, rfl, hcount, ⟨hnext⟩⟩)
    · rfl
    · replace hcount := toCount?_eq_some_iff.mpr hcount
      have hsign := Number.Literal.not_isNegative_of_toCount? hcount
      simp only [hsign, hcount, Bool.false_eq_true, if_false, run_bind_eq_ok, run_token_eq_ok]
      exact ⟨_, s', hnext, by simp⟩

/-- A data type is read to its end when no bracket follows that could belong to it. -/
theorem run_dataType_eq_ok {t : DataType} (hready : Ready s' (· ≠ .symbol .leftBracket)) :
    (dataType ⟨l, pos⟩).run s = .ok (t, s') ↔
      ∃ ps, Reads s ps s' ∧ IsDataType (.token l :: ps) t := by
  unfold dataType
  constructor
  · intro h
    split at h
    · next w hw =>
      cases hw
      split at h
      · cases h
      · next kind hkind =>
        rw [dataKind_eq_some_iff] at hkind
        simp only [run_bind_eq_ok, run_eat_eq_ok] at h
        obtain ⟨taken, s₁, heat, h⟩ := h
        rcases heat with ⟨rfl, hopen⟩ | ⟨rfl, rfl, _⟩
        · simp only [if_true, run_bind_eq_ok, run_token_eq_ok] at h
          obtain ⟨⟨l', pos'⟩, s₂, hnext, count, s₃, hlength, hpure⟩ := h
          cases hpure
          rcases run_arrayLength_eq_ok.mp hlength with ⟨rfl, rfl, rfl⟩ | ⟨literal, rfl, hn, hclose⟩
          · exact ⟨_, .cons hopen (.single (.token hnext)), .unsized hkind⟩
          · exact ⟨_, .cons hopen (.cons (.token hnext) (.single hclose)), .sized hkind hn⟩
        · cases h
          exact ⟨[], .nil, .single hkind⟩
    · cases h
  · rintro ⟨ps, hreads, htype⟩
    cases htype with
    | single hkind =>
      cases hreads
      simp [dataKind_eq_some_iff.mpr hkind, run_eat_eq_ok, hready]
    | unsized hkind =>
      simp only [reads_cons, reads_nil] at hreads
      obtain ⟨s₁, hopen, s₂, ⟨hnext⟩, rfl⟩ := hreads
      simp only [dataKind_eq_some_iff.mpr hkind, run_bind_eq_ok, run_eat_eq_ok]
      refine ⟨true, s₁, .inl ⟨rfl, hopen⟩, ?_⟩
      simp only [if_true, run_bind_eq_ok, run_token_eq_ok]
      exact ⟨_, s₂, hnext, 0, s₂, run_arrayLength_eq_ok.mpr (.inl ⟨rfl, rfl, rfl⟩), rfl⟩
    | sized hkind hn =>
      simp only [reads_cons, reads_nil] at hreads
      obtain ⟨s₁, hopen, s₂, ⟨hnext⟩, s₃, hclose, rfl⟩ := hreads
      simp only [dataKind_eq_some_iff.mpr hkind, run_bind_eq_ok, run_eat_eq_ok]
      refine ⟨true, s₁, .inl ⟨rfl, hopen⟩, ?_⟩
      simp only [if_true, run_bind_eq_ok, run_token_eq_ok]
      exact ⟨_, s₂, hnext, _, s₃, run_arrayLength_eq_ok.mpr (.inr ⟨_, rfl, hn, hclose⟩), rfl⟩

inductive IsStageBefore : Phrase StageMask
  | mk {w m} (hm : (w, m) ∈ stageSets) : IsStageBefore [.word w, .symbol .comma] m

/-- The last stage, which is put to those before it. -/
inductive IsLastStage (mask : StageMask) : Phrase StageMask
  | mk {w m} (hm : (w, m) ∈ stageSets) :
      IsLastStage mask [.word w, .symbol .rightParen] (mask.union m)

/-- One round of a list: a stage, and the symbol that says whether there are more. -/
theorem stageList_eq_loop : ∃ round, stageList = loop round StageMask.empty ∧
    ∀ {S : Type} [TokenSource S] {s s' : S} {mask l pos outcome},
      (round mask ⟨l, pos⟩).run s = .ok (outcome, s') ↔
      ∃ w m, l = .word w ∧ (w, m) ∈ stageSets ∧
        (Gives s (.symbol .comma) s' ∧ outcome = .inl (mask.union m) ∨
          Gives s (.symbol .rightParen) s' ∧ outcome = .inr (mask.union m)) := by
  refine ⟨_, rfl, ?_⟩
  intro S _ s s' mask l pos outcome
  constructor
  · intro h
    split at h
    · next w hw =>
      cases hw
      split at h
      · cases h
      · next m hm =>
        rw [stageSet_eq_some_iff] at hm
        simp only [run_bind_eq_ok, run_token_eq_ok] at h
        obtain ⟨⟨l', pos'⟩, s₁, hnext, h⟩ := h
        split at h
        · next hl =>
          cases h
          cases hl
          exact ⟨w, m, rfl, hm, .inl ⟨.token hnext, rfl⟩⟩
        · next hl =>
          cases h
          cases hl
          exact ⟨w, m, rfl, hm, .inr ⟨.token hnext, rfl⟩⟩
        · cases h
    · cases h
  · rintro ⟨w, m, rfl, hm, ⟨⟨hnext⟩, rfl⟩ | ⟨⟨hnext⟩, rfl⟩⟩
    · simp only [stageSet_eq_some_iff.mpr hm, run_bind_eq_ok, run_token_eq_ok]
      exact ⟨_, s', hnext, rfl⟩
    · simp only [stageSet_eq_some_iff.mpr hm, run_bind_eq_ok, run_token_eq_ok]
      exact ⟨_, s', hnext, rfl⟩

theorem isStages_of_many {ps : List Piece} {ms : List StageMask} {w : String} {m : StageMask}
    (many : Many IsStageBefore ps ms) (hm : (w, m) ∈ stageSets) :
    IsStages (ps ++ [.word w]) (ms ++ [m]) := by
  induction many with
  | nil => exact .last hm
  | cons head _ ih =>
    obtain ⟨hhead⟩ := head
    exact .cons hhead ih

theorem many_of_isStages {ps : List Piece} {ms : List StageMask} (h : IsStages ps ms) :
    ∃ qs ns w m, Many IsStageBefore qs ns ∧ (w, m) ∈ stageSets ∧
      ps = qs ++ [.word w] ∧ ms = ns ++ [m] := by
  induction h with
  | last hm => exact ⟨[], [], _, _, .nil, hm, rfl, rfl⟩
  | cons hm _ ih =>
    obtain ⟨qs, ns, w, m, hmany, hlast, rfl, rfl⟩ := ih
    exact ⟨_, _, w, m, .cons (.mk hm) hmany, hlast, rfl, rfl⟩

/-- The stages of a list, from behind its opening parenthesis through the closing one. -/
theorem run_stageList_eq_ok {mask : StageMask} :
    stageList.run s = .ok (mask, s') ↔
      ∃ ps ms, Reads s (ps ++ [.symbol .rightParen]) s' ∧ IsStages ps ms ∧
        mask = ms.foldl .union .empty := by
  obtain ⟨round, hlist, hround⟩ := stageList_eq_loop
  have hphrases : RoundOf round IsStageBefore Always StageMask.union IsLastStage
      fun l => ∃ w, l = .word w := by
    refine ⟨?starts, ?ends, ?again, ?finish⟩
    case starts =>
      rintro ps m ⟨hm⟩
      exact ⟨_, _, rfl, _, rfl⟩
    case ends =>
      rintro mask ps b ⟨hm⟩
      exact ⟨_, _, rfl, _, rfl⟩
    case again =>
      intro S _ s s' mask l pos mask' _
      rw [hround]
      constructor
      · rintro ⟨w, m, rfl, hm, ⟨hcomma, heq⟩ | ⟨_, heq⟩⟩
        · cases heq
          exact ⟨_, m, .single hcomma, .mk hm, trivial, rfl⟩
        · cases heq
      · rintro ⟨ps, m, hreads, ⟨hm⟩, _, rfl⟩
        exact ⟨_, m, rfl, hm, .inl ⟨reads_single.mp hreads, rfl⟩⟩
    case finish =>
      intro S _ s s' mask l pos b
      rw [hround]
      constructor
      · rintro ⟨w, m, rfl, hm, ⟨_, heq⟩ | ⟨hparen, heq⟩⟩
        · cases heq
        · cases heq
          exact ⟨_, .single hparen, .mk hm⟩
      · rintro ⟨ps, hreads, ⟨hm⟩⟩
        exact ⟨_, _, rfl, hm, .inr ⟨reads_single.mp hreads, rfl⟩⟩
  rw [hlist, hphrases.run_loop_eq_ok]
  constructor
  · rintro ⟨ps, qs, ms, hreads, hmany, _, ⟨hm⟩⟩
    refine ⟨_, _, ?_, isStages_of_many hmany hm, by simp⟩
    simpa using hreads
  · rintro ⟨ps, ms, hreads, hstages, rfl⟩
    obtain ⟨qs, ns, w, m, hmany, hm, rfl, rfl⟩ := many_of_isStages hstages
    rw [List.append_assoc] at hreads
    rw [List.foldl_append]
    exact ⟨qs, _, ns, hreads, hmany, chain_always _ _ _, .mk hm⟩

/-- A token that does not end a value. -/
inductive IsSkipped : Phrase Unit
  | mk {l : Lexeme} (hl : l ≠ .symbol .rightParen ∧ l ≠ .endOfInput) : IsSkipped [.token l] ()

theorem many_isSkipped_iff {ps : List Piece} : (∃ us, Many IsSkipped ps us) ↔
    ∃ ls : List Lexeme, ps = ls.map Piece.token ∧
      ∀ l ∈ ls, l ≠ .symbol .rightParen ∧ l ≠ .endOfInput := by
  constructor
  · rintro ⟨us, hmany⟩
    induction hmany with
    | nil => exact ⟨[], rfl, by simp⟩
    | cons head _ ih =>
      obtain ⟨hl⟩ := head
      obtain ⟨ls, rfl, hls⟩ := ih
      exact ⟨_ :: ls, rfl, List.forall_mem_cons.mpr ⟨hl, hls⟩⟩
  · rintro ⟨ls, rfl, hls⟩
    induction ls with
    | nil => exact ⟨[], .nil⟩
    | cons l ls ih =>
      obtain ⟨hl, hls⟩ := List.forall_mem_cons.mp hls
      obtain ⟨us, hmany⟩ := ih hls
      exact ⟨() :: us, .cons (.mk hl) hmany⟩

/-- The value of an unknown property is everything up to its closing parenthesis. -/
theorem skipValue_eq_loop : ∃ round, skipValue = loop round () ∧
    RoundOf round IsSkipped Always (fun _ _ => ()) (Closing (.symbol .rightParen))
      fun _ => True := by
  refine ⟨_, rfl, RoundOf.ofClosing trivial ?starts rfl ?goesOn ?again⟩
  case starts =>
    rintro ps m ⟨hl⟩
    exact ⟨_, _, rfl, trivial, hl.1⟩
  case goesOn =>
    intro S _ s s' state l pos b hl h
    split at h
    · next hparen => exact hl hparen
    · cases h
    · cases h
  case again =>
    intro S _ s s' state l pos state' hparen _
    constructor
    · intro h
      split at h
      · cases h
      · cases h
      · next hend =>
        cases h
        exact ⟨[], (), .nil, .mk ⟨hparen, hend⟩, trivial, rfl⟩
    · rintro ⟨ps, u, hreads, ⟨_, hend⟩, _⟩
      cases hreads
      split
      · next hl => exact absurd hl hparen
      · next hl => exact absurd hl hend
      · rfl

/-- Everything up to the next closing parenthesis. -/
theorem run_skipValue_eq_ok {u : Unit} :
    skipValue.run s = .ok (u, s') ↔
      ∃ ls : List Lexeme, Reads s (ls.map Piece.token ++ [.symbol .rightParen]) s' ∧
        ∀ l ∈ ls, l ≠ .symbol .rightParen ∧ l ≠ .endOfInput := by
  obtain ⟨round, hskip, hround⟩ := skipValue_eq_loop
  rw [hskip, hround.run_loop_closing_eq_ok]
  constructor
  · rintro ⟨ps, us, hreads, hmany, _⟩
    obtain ⟨ls, rfl, hls⟩ := many_isSkipped_iff.mp ⟨us, hmany⟩
    exact ⟨ls, hreads, hls⟩
  · rintro ⟨ls, hreads, hls⟩
    obtain ⟨us, hmany⟩ := many_isSkipped_iff.mpr ⟨ls, rfl, hls⟩
    exact ⟨_, us, hreads, hmany, chain_always _ _ _, rfl⟩

theorem IsDataType.starts {ps : List Piece} {t : DataType} (h : IsDataType ps t) :
    ∃ w qs, ps = .word w :: qs := by
  cases h <;> exact ⟨_, _, rfl⟩

/-- A data type and the word behind it. -/
theorem run_dataType_of_word {t : DataType} {s₁ : S} {w : String}
    (hword : Gives s₁ (.word w) s') : (dataType ⟨l, pos⟩).run s = .ok (t, s₁) ↔
      ∃ ps, Reads s ps s₁ ∧ IsDataType (.token l :: ps) t :=
  run_dataType_eq_ok ⟨_, _, hword, by simp⟩

/-- The entries of a vertex layout are read by their grammar. -/
theorem entryOf_vertexEntry :
    EntryOf vertexEntry IsVertexEntry Always VertexLayout.add InStatement := by
  constructor
  · intro ps x hx
    cases hx <;> exact ⟨_, _, rfl⟩
  intro S _ s s' v w pos v' _
  unfold vertexEntry
  constructor
  · intro h
    split at h
    · simp only [run_bind_eq_ok, run_token_eq_ok, run_expectCount_eq_ok] at h
      obtain ⟨⟨l, _⟩, s₁, hfirst, format, s₂, htype, ⟨name, _⟩, s₃, hname, binding, s₄,
        ⟨l₁, h₁, hl₁⟩, location, s₅, ⟨l₂, h₂, hl₂⟩, offset, s₆, ⟨l₃, h₃, hl₃⟩, hpure⟩ := h
      cases hpure
      have hword : Gives s₂ (.word name) s₃ := .token (run_expectWord_eq_ok.mp hname)
      obtain ⟨ps, hreads, hformat⟩ := (run_dataType_of_word hword).mp htype
      exact ⟨_, _, .cons (.token hfirst)
          (hreads.append (.cons hword (.cons hl₁ (.cons hl₂ (.single hl₃))))),
        .vertexAttribute hformat h₁ h₂ h₃, trivial, rfl⟩
    · simp only [run_bind_eq_ok, run_expectCount_eq_ok, run_expectFrom_eq_ok] at h
      obtain ⟨binding, s₁, ⟨l₁, h₁, hl₁⟩, stride, s₂, ⟨l₂, h₂, hl₂⟩, rate, s₃, ⟨w, h₃, hw⟩,
        hpure⟩ := h
      cases hpure
      exact ⟨_, _, .cons hl₁ (.cons hl₂ (.single hw)),
        .vertexBinding h₁ h₂ (inputRate_eq_some_iff.mp h₃), trivial, rfl⟩
    · cases h
  · rintro ⟨ps, x, hreads, hx, _, rfl⟩
    cases hx with
    | vertexAttribute hformat h₁ h₂ h₃ =>
      obtain ⟨w, qs, rfl⟩ := hformat.starts
      simp only [List.cons_append, reads_cons, reads_append, reads_nil]
        at hreads
      obtain ⟨s₁, ⟨hfirst⟩, s₂, hrest, s₃, hword, s₄, hl₁, s₅, hl₂, s₆, hl₃, rfl⟩ := hreads
      obtain ⟨_, hname⟩ := hword.next_eq
      simp only [run_bind_eq_ok, run_token_eq_ok, run_expectCount_eq_ok]
      exact ⟨_, s₁, hfirst, _, s₂, (run_dataType_of_word hword).mpr ⟨qs, hrest, hformat⟩, _, s₃,
        run_expectWord_eq_ok.mpr hname, _, s₄, ⟨_, h₁, hl₁⟩, _, s₅, ⟨_, h₂, hl₂⟩, _, s₆,
        ⟨_, h₃, hl₃⟩, rfl⟩
    | vertexBinding h₁ h₂ h₃ =>
      simp only [reads_cons, reads_nil] at hreads
      obtain ⟨s₁, hl₁, s₂, hl₂, s₃, hw, rfl⟩ := hreads
      simp only [run_bind_eq_ok, run_expectCount_eq_ok, run_expectFrom_eq_ok]
      exact ⟨_, s₁, ⟨_, h₁, hl₁⟩, _, s₂, ⟨_, h₂, hl₂⟩, _, s₃,
        ⟨_, inputRate_eq_some_iff.mpr h₃, hw⟩, rfl⟩

theorem run_vertexLayout_eq_ok {v : VertexLayout} :
    vertexLayout.run s = .ok (v, s') ↔
      ∃ ps name entries, Reads s ps s' ∧
        NamedBlock (Statement IsVertexEntry) ps (name, entries) ∧
          v = entries.foldl .add { name } := by
  unfold vertexLayout bodyOfStatements
  rw [entryOf_vertexEntry.statement.run_namedBlock_eq_ok]
  simp

/-- A number in parentheses that are already open. -/
theorem run_countInParens_eq_ok {what : String} {b : ResourceBinding}
    {f : UInt32 → ResourceBinding} :
    (expectCount what >>= fun n => expectSymbol .rightParen >>= fun _ => Pure.pure (f n)).run s =
        .ok (b, s') ↔
      ∃ l n, IsCount l n ∧ b = f n ∧ Reads s [.number l, .symbol .rightParen] s' := by
  simp only [run_bind_eq_ok, run_expectCount_eq_ok, run_expectSymbol_eq_ok]
  constructor
  · rintro ⟨n, s₁, ⟨l, hn, hl⟩, _, s₂, ⟨_, _, hclose⟩, hpure⟩
    cases hpure
    exact ⟨l, n, hn, rfl, .cons hl (.single (.token hclose))⟩
  · rintro ⟨l, n, hn, rfl, hreads⟩
    simp only [reads_cons, reads_nil] at hreads
    obtain ⟨s₁, hl, s₂, ⟨hclose⟩, rfl⟩ := hreads
    exact ⟨n, s₁, ⟨l, hn, hl⟩, _, s₂, ⟨_, rfl, hclose⟩, rfl⟩

/-- A property is read by its grammar, and its value put into the binding. -/
theorem run_property_eq_ok {b b' : ResourceBinding} {key : String} :
    (property b key pos).run s = .ok (b', s') ↔
      ∃ ps x, Reads s ps s' ∧ IsProperty (.word key :: ps) x ∧ b' = b.put x := by
  unfold property
  simp only [run_bind_eq_ok, run_expectSymbol_eq_ok]
  constructor
  · rintro ⟨_, s₁, ⟨_, _, hopen⟩, h⟩
    split at h
    · simp only [run_bind_eq_ok, run_stageList_eq_ok] at h
      obtain ⟨mask, s₂, ⟨ps, ms, hreads, hstages, rfl⟩, hpure⟩ := h
      cases hpure
      exact ⟨_, _, .cons (.token hopen) hreads, .stages hstages, rfl⟩
    · obtain ⟨l, n, hn, rfl, hreads⟩ := run_countInParens_eq_ok.mp h
      exact ⟨_, _, .cons (.token hopen) hreads, .binding hn, rfl⟩
    · obtain ⟨l, n, hn, rfl, hreads⟩ := run_countInParens_eq_ok.mp h
      exact ⟨_, _, .cons (.token hopen) hreads, .size hn, rfl⟩
    · obtain ⟨l, n, hn, rfl, hreads⟩ := run_countInParens_eq_ok.mp h
      exact ⟨_, _, .cons (.token hopen) hreads, .set hn, rfl⟩
    · next h₁ h₂ h₃ h₄ =>
      simp only [run_bind_eq_ok, run_skipValue_eq_ok] at h
      obtain ⟨_, _, hsay, _, s₂, ⟨ls, hreads, hls⟩, hpure⟩ := h
      cases hsay
      cases hpure
      have hkey : key ∉ ["Stage", "Binding", "Size", "Set"] := by
        simp only [List.mem_cons, List.not_mem_nil, or_false, not_or]
        exact ⟨h₁, h₂, h₃, h₄⟩
      exact ⟨_, _, .cons (.token hopen) hreads, .unknown hkey hls, rfl⟩
  · rintro ⟨ps, x, hreads, hx, rfl⟩
    cases hx with
    | stages hstages =>
      obtain ⟨s₁, ⟨hopen⟩, hrest⟩ := reads_cons.mp hreads
      refine ⟨_, s₁, ⟨_, rfl, hopen⟩, ?_⟩
      simp only [run_bind_eq_ok, run_stageList_eq_ok]
      exact ⟨_, s', ⟨_, _, hrest, hstages, rfl⟩, rfl⟩
    | binding hn | size hn | set hn =>
      obtain ⟨s₁, ⟨hopen⟩, hrest⟩ := reads_cons.mp hreads
      exact ⟨_, s₁, ⟨_, rfl, hopen⟩, run_countInParens_eq_ok.mpr ⟨_, _, hn, rfl, hrest⟩⟩
    | unknown hkey hls =>
      -- A key of another kind, so the first four cases of the parser are impossible.
      obtain ⟨s₁, ⟨hopen⟩, hrest⟩ := reads_cons.mp hreads
      refine ⟨_, s₁, ⟨_, rfl, hopen⟩, ?_⟩
      split
      iterate 4 simp at hkey
      simp only [run_bind_eq_ok, run_skipValue_eq_ok]
      exact ⟨(), s₁, rfl, (), s', ⟨_, hrest, hls⟩, rfl⟩

/-- Properties stand in a row up to a semicolon. -/
theorem properties_eq_loop : ∃ round, (∀ b, properties b = loop round b) ∧
    RoundOf round IsProperty Always ResourceBinding.put (Closing (.symbol .semicolon))
      fun _ => True := by
  refine ⟨_, fun _ => rfl, RoundOf.ofClosing trivial ?starts rfl ?goesOn ?again⟩
  case starts =>
    intro ps x hx
    cases hx <;> exact ⟨_, _, rfl, trivial, by simp⟩
  case goesOn =>
    intro S _ s s' b l pos b' hl h
    split at h
    · next hsemicolon => exact hl hsemicolon
    · obtain ⟨_, _, _, hagain⟩ := run_bind_eq_ok.mp h
      cases hagain
    · cases h
  case again =>
    intro S _ s s' b l pos b' _ _
    constructor
    · intro h
      split at h
      · cases h
      · next key hl =>
        obtain ⟨b₁, s₁, hproperty, hagain⟩ := run_bind_eq_ok.mp h
        cases hagain
        cases hl
        obtain ⟨ps, x, hreads, hx, hb⟩ := run_property_eq_ok.mp hproperty
        exact ⟨ps, x, hreads, hx, trivial, hb⟩
      · cases h
    · rintro ⟨ps, x, hreads, hx, _, rfl⟩
      have hword : ∃ key, l = .word key := by cases hx <;> exact ⟨_, rfl⟩
      obtain ⟨key, rfl⟩ := hword
      have hproperty : (property b key pos).run s = .ok (b.put x, s') :=
        run_property_eq_ok.mpr ⟨ps, x, hreads, hx, rfl⟩
      exact run_bind_eq_ok.mpr ⟨_, s', hproperty, rfl⟩

/-- The properties of a binding, through the semicolon. -/
theorem run_properties_eq_ok {b b' : ResourceBinding} :
    (properties b).run s = .ok (b', s') ↔
      ∃ ps xs, Reads s (ps ++ [.symbol .semicolon]) s' ∧ Many IsProperty ps xs ∧
        b' = xs.foldl .put b := by
  obtain ⟨round, hproperties, hround⟩ := properties_eq_loop
  rw [hproperties, hround.run_loop_closing_eq_ok]
  simp

/-- The bindings of a resource block are read by their grammar. -/
theorem entryOf_resourceEntry : EntryOf resourceEntry IsBinding Always
    (fun block b => { block with bindings := block.bindings ++ [b] }) InBlock := by
  constructor
  · rintro ps b ⟨_, _⟩
    exact ⟨_, _, rfl⟩
  intro S _ s s' block w pos block' _
  unfold resourceEntry
  constructor
  · intro h
    split at h
    · cases h
    · next kind hkind =>
      rw [resourceKind_eq_some_iff] at hkind
      simp only [run_bind_eq_ok, run_properties_eq_ok] at h
      obtain ⟨⟨name, _⟩, s₁, hname, b, s₂, ⟨ps, xs, hreads, hmany, rfl⟩, hpure⟩ := h
      cases hpure
      exact ⟨_, _, .cons (.token (run_expectWord_eq_ok.mp hname)) hreads, .mk hkind hmany, trivial,
        rfl⟩
  · rintro ⟨ps, b, hreads, ⟨hkind, hmany⟩, _, rfl⟩
    obtain ⟨s₁, ⟨hname⟩, hrest⟩ := reads_cons.mp hreads
    simp only [resourceKind_eq_some_iff.mpr hkind, run_bind_eq_ok, run_properties_eq_ok]
    exact ⟨_, s₁, run_expectWord_eq_ok.mpr hname, _, s', ⟨_, _, hrest, hmany, rfl⟩, rfl⟩

theorem foldl_append_binding (name : String) (front bindings : List ResourceBinding) :
    bindings.foldl
        (fun (block : ResourceBlock) b => { block with bindings := block.bindings ++ [b] })
        ⟨name, front⟩ = ⟨name, front ++ bindings⟩ := by
  induction bindings generalizing front with
  | nil => simp
  | cons b bindings ih => simp [ih]

theorem run_resourceBlock_eq_ok {block : ResourceBlock} :
    resourceBlock.run s = .ok (block, s') ↔
      ∃ ps name bindings, Reads s ps s' ∧ NamedBlock IsBinding ps (name, bindings) ∧
        block = ⟨name, bindings⟩ := by
  unfold resourceBlock
  rw [entryOf_resourceEntry.run_namedBlock_eq_ok]
  simp [foldl_append_binding]

theorem IsField.starts {ps : List Piece} {field : BufferField} (h : IsField ps field) :
    ∃ w qs, ps = .word w :: qs := by
  cases h with
  | plain htype | staged htype _ =>
    obtain ⟨w, qs, rfl⟩ := htype.starts
    exact ⟨w, _, rfl⟩

/-- A field of a buffer is read by its grammar. -/
theorem run_bufferField_eq_ok {field : BufferField} :
    (bufferField ⟨l, pos⟩).run s = .ok (field, s') ↔
      ∃ ps, Reads s ps s' ∧ IsField (.token l :: ps) field := by
  unfold bufferField
  simp only [run_bind_eq_ok, run_token_eq_ok]
  constructor
  · rintro ⟨type, s₁, htype, ⟨name, _⟩, s₂, hname, ⟨l', _⟩, s₃, hnext, h⟩
    have hword : Gives s₁ (.word name) s₂ := .token (run_expectWord_eq_ok.mp hname)
    obtain ⟨ps, hreads, htype⟩ := (run_dataType_of_word hword).mp htype
    split at h
    · next hl =>
      cases hl
      simp only [run_bind_eq_ok, run_expectSymbol_eq_ok, run_stageList_eq_ok] at h
      obtain ⟨_, s₄, ⟨_, _, hopen⟩, mask, s₅, ⟨qs, ms, hlist, hstages, rfl⟩, _, s₆,
        ⟨_, _, hsemicolon⟩, hpure⟩ := h
      cases hpure
      have hback := hlist.append (.single (.token hsemicolon))
      rw [List.append_assoc] at hback
      exact ⟨_, hreads.append (.cons hword (.cons (.token hnext) (.cons (.token hopen) hback))),
        .staged htype hstages⟩
    · next hl =>
      cases h
      cases hl
      exact ⟨_, hreads.append (.cons hword (.single (.token hnext))), .plain htype⟩
    · cases h
  · rintro ⟨ps, hreads, hfield⟩
    generalize hpieces : Piece.token l :: ps = pieces at hfield
    cases hfield with
    | plain htype =>
      obtain ⟨w, qs, rfl⟩ := htype.starts
      rw [List.cons_append, List.cons.injEq] at hpieces
      obtain ⟨hl, rfl⟩ := hpieces
      cases hl
      simp only [reads_append, reads_cons, reads_nil] at hreads
      obtain ⟨s₁, htypeReads, s₂, hword, s₃, ⟨hnext⟩, rfl⟩ := hreads
      obtain ⟨_, hname⟩ := hword.next_eq
      exact ⟨_, s₁, (run_dataType_of_word hword).mpr ⟨qs, htypeReads, htype⟩, _, s₂,
        run_expectWord_eq_ok.mpr hname, _, s₃, hnext, rfl⟩
    | @staged _ list _ _ _ htype hstages =>
      obtain ⟨w, qs, rfl⟩ := htype.starts
      rw [List.cons_append, List.cons.injEq] at hpieces
      obtain ⟨hl, rfl⟩ := hpieces
      cases hl
      rw [List.append_cons list] at hreads
      simp only [reads_append, reads_cons, reads_nil] at hreads
      obtain ⟨s₁, htypeReads, s₂, hword, s₃, ⟨hnext⟩, s₄, ⟨hopen⟩, _, ⟨s₅, hlist, _, hclose, rfl⟩,
        s₇, ⟨hsemicolon⟩, rfl⟩ := hreads
      obtain ⟨_, hname⟩ := hword.next_eq
      refine ⟨_, s₁, (run_dataType_of_word hword).mpr ⟨qs, htypeReads, htype⟩, _, s₂,
        run_expectWord_eq_ok.mpr hname, _, s₃, hnext, ?_⟩
      simp only [run_bind_eq_ok, run_expectSymbol_eq_ok, run_stageList_eq_ok]
      exact ⟨_, s₄, ⟨_, rfl, hopen⟩, _, _, ⟨_, _, hlist.append (.single hclose), hstages, rfl⟩, _,
        s₇, ⟨_, rfl, hsemicolon⟩, rfl⟩

/-- The fields of a buffer stand in a row up to a closing brace. -/
theorem buffer_eq_loop : ∃ round,
    (buffer = expectName >>= fun name => expectSymbol .leftBrace >>= fun _ =>
      loop round [] >>= fun fields => Pure.pure ⟨name, fields⟩) ∧
    RoundOf round IsField Always (fun fields field => fields ++ [field])
      (Closing (.symbol .rightBrace)) fun _ => True := by
  refine ⟨_, rfl, RoundOf.ofClosing trivial ?starts rfl ?goesOn ?again⟩
  case starts =>
    intro ps field hfield
    obtain ⟨w, qs, rfl⟩ := hfield.starts
    exact ⟨_, _, rfl, trivial, by simp⟩
  case goesOn =>
    intro S _ s s' fields l pos b hl h
    split at h
    · next hbrace => exact hl hbrace
    · obtain ⟨_, _, _, hagain⟩ := run_bind_eq_ok.mp h
      cases hagain
  case again =>
    intro S _ s s' fields l pos fields' _ _
    constructor
    · intro h
      split at h
      · cases h
      · obtain ⟨field, s₁, hfield, hagain⟩ := run_bind_eq_ok.mp h
        cases hagain
        obtain ⟨ps, hreads, hfield⟩ := run_bufferField_eq_ok.mp hfield
        exact ⟨ps, field, hreads, hfield, trivial, rfl⟩
    · rintro ⟨ps, field, hreads, hfield, _, rfl⟩
      obtain ⟨w, qs, hpieces⟩ := hfield.starts
      cases hpieces
      have hrun : (bufferField ⟨.word w, pos⟩).run s = .ok (field, s') :=
        run_bufferField_eq_ok.mpr ⟨ps, hreads, hfield⟩
      exact run_bind_eq_ok.mpr ⟨field, s', hrun, rfl⟩

theorem run_buffer_eq_ok {b : Buffer} :
    buffer.run s = .ok (b, s') ↔
      ∃ ps name fields, Reads s ps s' ∧ NamedBlock IsField ps (name, fields) ∧
        b = ⟨name, fields⟩ := by
  obtain ⟨round, hbuffer, hround⟩ := buffer_eq_loop
  rw [hbuffer]
  simp only [run_bind_eq_ok, run_expectName_eq_ok, run_expectSymbol_eq_ok,
    hround.run_loop_closing_eq_ok, foldl_concat, List.nil_append]
  constructor
  · rintro ⟨name, s₁, ⟨l, hname, hl⟩, _, s₂, ⟨_, _, hopen⟩, fields, s₃,
      ⟨ps, _, hreads, hmany, _, rfl⟩, hpure⟩
    cases hpure
    exact ⟨_, name, fields, .cons hl (.cons (.token hopen) hreads), .mk hname (.mk hmany), rfl⟩
  · rintro ⟨_, name, fields, hreads, ⟨hname, ⟨hmany⟩⟩, rfl⟩
    simp only [reads_cons] at hreads
    obtain ⟨s₁, hl, s₂, ⟨hopen⟩, hreads⟩ := hreads
    exact ⟨name, s₁, ⟨_, hname, hl⟩, _, s₂, ⟨_, rfl, hopen⟩, fields, s',
      ⟨_, fields, hreads, hmany, chain_always _ _ _, rfl⟩, rfl⟩

/-- What a definition is read by, and where it goes. -/
theorem run_bind_add_eq_ok {α : Type} {p : Parser α} {e e' : Effect} (sort : α → Definition) :
    (p >>= fun a => Pure.pure (e.add (sort a))).run s = .ok (e', s') ↔
      ∃ a, p.run s = .ok (a, s') ∧ e' = e.add (sort a) := by
  simp only [run_bind_eq_ok]
  constructor
  · rintro ⟨a, s₁, ha, hpure⟩
    cases hpure
    exact ⟨a, ha, rfl⟩
  · rintro ⟨a, ha, rfl⟩
    exact ⟨a, s', ha, rfl⟩

/-- The entries of a layout are read by their grammar. -/
theorem entryOf_layoutEntry : EntryOf layoutEntry IsLayoutEntry Always Effect.add InBlock := by
  constructor
  · intro ps x hx
    cases hx <;> exact ⟨_, _, rfl⟩
  intro S _ s s' e w pos e' _
  unfold layoutEntry
  constructor
  · intro h
    split at h
    · obtain ⟨_, hv, rfl⟩ := (run_bind_add_eq_ok .vertexLayout).mp h
      obtain ⟨ps, name, entries, hreads, hblock, rfl⟩ := run_vertexLayout_eq_ok.mp hv
      exact ⟨_, _, hreads, .vertex hblock, trivial, rfl⟩
    · obtain ⟨_, s₁, hword, h⟩ := run_bind_eq_ok.mp h
      obtain ⟨_, hb, rfl⟩ := (run_bind_add_eq_ok .localResources).mp h
      obtain ⟨ps, name, bindings, hreads, hblock, rfl⟩ := run_resourceBlock_eq_ok.mp hb
      exact ⟨_, _, .cons (run_expectKeyword_eq_ok.mp hword) hreads, .localResource hblock, trivial,
        rfl⟩
    · obtain ⟨_, s₁, hword, h⟩ := run_bind_eq_ok.mp h
      obtain ⟨_, hb, rfl⟩ := (run_bind_add_eq_ok .globalResources).mp h
      obtain ⟨ps, name, bindings, hreads, hblock, rfl⟩ := run_resourceBlock_eq_ok.mp hb
      exact ⟨_, _, .cons (run_expectKeyword_eq_ok.mp hword) hreads, .globalResource hblock, trivial,
        rfl⟩
    · obtain ⟨_, hb, rfl⟩ := (run_bind_add_eq_ok .localResources).mp h
      obtain ⟨ps, name, bindings, hreads, hblock, rfl⟩ := run_resourceBlock_eq_ok.mp hb
      exact ⟨_, _, hreads, .resource hblock, trivial, rfl⟩
    · obtain ⟨_, hb, rfl⟩ := (run_bind_add_eq_ok .constantBuffer).mp h
      obtain ⟨ps, name, fields, hreads, hblock, rfl⟩ := run_buffer_eq_ok.mp hb
      exact ⟨_, _, hreads, .constantBuffer hblock, trivial, rfl⟩
    · obtain ⟨_, hb, rfl⟩ := (run_bind_add_eq_ok .uniformBuffer).mp h
      obtain ⟨ps, name, fields, hreads, hblock, rfl⟩ := run_buffer_eq_ok.mp hb
      exact ⟨_, _, hreads, .uniformBuffer hblock, trivial, rfl⟩
    · obtain ⟨_, hb, rfl⟩ := (run_bind_add_eq_ok .storageBuffer).mp h
      obtain ⟨ps, name, fields, hreads, hblock, rfl⟩ := run_buffer_eq_ok.mp hb
      exact ⟨_, _, hreads, .storageBuffer hblock, trivial, rfl⟩
    · cases h
  · rintro ⟨ps, x, hreads, hx, _, rfl⟩
    cases hx with
    | vertex hblock =>
      have hv := run_vertexLayout_eq_ok.mpr ⟨_, _, _, hreads, hblock, rfl⟩
      exact (run_bind_add_eq_ok .vertexLayout).mpr ⟨_, hv, rfl⟩
    | resource hblock =>
      have hb := run_resourceBlock_eq_ok.mpr ⟨_, _, _, hreads, hblock, rfl⟩
      exact (run_bind_add_eq_ok .localResources).mpr ⟨_, hb, rfl⟩
    | localResource hblock =>
      obtain ⟨s₁, hword, hrest⟩ := reads_cons.mp hreads
      have hb := run_resourceBlock_eq_ok.mpr ⟨_, _, _, hrest, hblock, rfl⟩
      exact run_bind_eq_ok.mpr ⟨(), s₁, run_expectKeyword_eq_ok.mpr hword,
        (run_bind_add_eq_ok .localResources).mpr ⟨_, hb, rfl⟩⟩
    | globalResource hblock =>
      obtain ⟨s₁, hword, hrest⟩ := reads_cons.mp hreads
      have hb := run_resourceBlock_eq_ok.mpr ⟨_, _, _, hrest, hblock, rfl⟩
      exact run_bind_eq_ok.mpr ⟨(), s₁, run_expectKeyword_eq_ok.mpr hword,
        (run_bind_add_eq_ok .globalResources).mpr ⟨_, hb, rfl⟩⟩
    | constantBuffer hblock =>
      have hb := run_buffer_eq_ok.mpr ⟨_, _, _, hreads, hblock, rfl⟩
      exact (run_bind_add_eq_ok .constantBuffer).mpr ⟨_, hb, rfl⟩
    | uniformBuffer hblock =>
      have hb := run_buffer_eq_ok.mpr ⟨_, _, _, hreads, hblock, rfl⟩
      exact (run_bind_add_eq_ok .uniformBuffer).mpr ⟨_, hb, rfl⟩
    | storageBuffer hblock =>
      have hb := run_buffer_eq_ok.mpr ⟨_, _, _, hreads, hblock, rfl⟩
      exact (run_bind_add_eq_ok .storageBuffer).mpr ⟨_, hb, rfl⟩

/-- A `Layout` block, from behind its word. -/
theorem run_layout_eq_ok {e e' : Effect} :
    (layout e).run s = .ok (e', s') ↔
      ∃ ps ds, Reads s ps s' ∧ Block IsLayoutEntry ps ds ∧ e' = ds.foldl .add e := by
  unfold layout
  rw [entryOf_layoutEntry.run_block_eq_ok]
  simp

end Kfx.Grammar
