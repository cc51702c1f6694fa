import Kfx.Grammar.Layout
import Kfx.Proofs.Grammar.Phrases

/-!
# When a loop reads phrases in a row

It is enough to know one round: which phrase leads to another round, and which one to the end. A
round may look at the token behind its phrase, which starts the next phrase or the last one. Blocks
in braces are the case that the grammar is made of.
-/
namespace Kfx.Grammar

open Kfx.Grammar.Parser

variable {α β σ τ S : Type} [TokenSource S]

/-- Entries one after another, each allowed in the state that those before it made. -/
def Chain (allowed : σ → β → Prop) (apply : σ → β → σ) : σ → List β → Prop
  | _, [] => True
  | state, x :: xs => allowed state x ∧ Chain allowed apply (apply state x) xs

/-- An entry that is allowed everywhere. -/
def Always (_ : σ) (_ : β) : Prop := True

@[simp] theorem chain_always (apply : σ → β → σ) (state : σ) (xs : List β) :
    Chain Always apply state xs := by
  induction xs generalizing state with
  | nil => trivial
  | cons x xs ih => exact ⟨trivial, ih (apply state x)⟩

/-- Entries put one by one behind what is there. -/
theorem foldl_concat (front xs : List α) :
    xs.foldl (fun front x => front ++ [x]) front = front ++ xs := by
  induction xs generalizing front with
  | nil => simp
  | cons x xs ih => simp [ih]

/-- What a round of a loop makes of the phrase that starts with the token it is given. -/
structure RoundOf (round : σ → Token → Parser (σ ⊕ τ)) (G : Phrase β) (allowed : σ → β → Prop)
    (apply : σ → β → σ) (Last : σ → Phrase τ) (first : Lexeme → Prop) : Prop where
  starts : ∀ {ps x}, G ps x → ∃ l qs, ps = .token l :: qs ∧ first l
  ends : ∀ {state ps b}, Last state ps b → ∃ l qs, ps = .token l :: qs ∧ first l
  again : ∀ {S : Type} [TokenSource S] {s s' : S} {state l pos state'}, Ready s' first →
    ((round state ⟨l, pos⟩).run s = .ok (.inl state', s') ↔
      ∃ ps x, Reads s ps s' ∧ G (.token l :: ps) x ∧ allowed state x ∧ state' = apply state x)
  finish : ∀ {S : Type} [TokenSource S] {s s' : S} {state l pos b},
    (round state ⟨l, pos⟩).run s = .ok (.inr b, s') ↔
      ∃ ps, Reads s ps s' ∧ Last state (.token l :: ps) b

namespace RoundOf

variable {round : σ → Token → Parser (σ ⊕ τ)} {G : Phrase β} {allowed : σ → β → Prop}
variable {apply : σ → β → σ} {Last : σ → Phrase τ} {first : Lexeme → Prop}

/-- Wherever a round starts, there is a token that a round can start with. -/
theorem ready (h : RoundOf round G allowed apply Last first) {ps qs : List Piece} {xs : List β}
    {state : σ} {b : τ} {s s' : S} (many : Many G ps xs) (last : Last state qs b)
    (reads : Reads s (ps ++ qs) s') : Ready s first := by
  have hfirst : ∃ l rest, ps ++ qs = .token l :: rest ∧ first l := by
    cases many with
    | nil => exact h.ends last
    | cons head tail =>
      obtain ⟨l, rest, rfl, hl⟩ := h.starts head
      exact ⟨l, _, rfl, hl⟩
  obtain ⟨l, rest, hpieces, hl⟩ := hfirst
  rw [hpieces] at reads
  cases reads with
  | cons hgives _ => exact ⟨l, _, hgives, hl⟩

theorem phrases_of_rounds (h : RoundOf round G allowed apply Last first) {state : σ}
    {s s' : S} {b : τ} (rounds : Rounds round state s b s') :
    ∃ ps qs xs, Reads s (ps ++ qs) s' ∧ Many G ps xs ∧ Chain allowed apply state xs ∧
      Last (xs.foldl apply state) qs b := by
  induction rounds with
  | finish hnext hround =>
    obtain ⟨ps, hreads, hlast⟩ := h.finish.mp hround
    exact ⟨[], _, [], .cons (gives_of_next hnext) hreads, .nil, trivial, hlast⟩
  | again hnext hround _ ih =>
    obtain ⟨ps, qs, xs, hreads, hmany, hchain, hlast⟩ := ih
    -- What the later rounds read starts with a token that may stand behind this round's phrase.
    have hready := h.ready hmany hlast hreads
    obtain ⟨front, x, hfront, hx, hallowed, rfl⟩ := (h.again hready).mp hround
    refine ⟨_ :: front ++ ps, qs, x :: xs, ?_, .cons hx hmany, ⟨hallowed, hchain⟩, hlast⟩
    rw [List.append_assoc]
    exact .cons (gives_of_next hnext) (hfront.append hreads)

/-- Phrases in a row are read in as many rounds. -/
theorem rounds_of_phrases (h : RoundOf round G allowed apply Last first) {state : σ}
    {s s' : S} {b : τ} {ps qs : List Piece} {xs : List β} (reads : Reads s (ps ++ qs) s')
    (many : Many G ps xs) (chain : Chain allowed apply state xs)
    (last : Last (xs.foldl apply state) qs b) : Rounds round state s b s' := by
  induction many generalizing state s with
  | nil =>
    obtain ⟨l, rest, rfl, _⟩ := h.ends last
    cases reads with
    | cons hgives hrest =>
      obtain ⟨hnext⟩ := hgives
      exact .finish hnext (h.finish.mpr ⟨rest, hrest, last⟩)
  | cons head tail ih =>
    obtain ⟨l, rest, rfl, _⟩ := h.starts head
    rw [List.append_assoc] at reads
    cases reads with
    | cons hgives hrest =>
      obtain ⟨hnext⟩ := hgives
      obtain ⟨s₂, hfront, hback⟩ := reads_append.mp hrest
      have hready := h.ready tail last hback
      exact .again hnext ((h.again hready).mpr ⟨rest, _, hfront, head, chain.1, rfl⟩)
        (ih hback chain.2 last)

/-- A loop reads phrases in a row and the last one behind them. -/
theorem run_loop_eq_ok (h : RoundOf round G allowed apply Last first) {state : σ}
    {s s' : S} {b : τ} : (loop round state).run s = .ok (b, s') ↔
      ∃ ps qs xs, Reads s (ps ++ qs) s' ∧ Many G ps xs ∧ Chain allowed apply state xs ∧
        Last (xs.foldl apply state) qs b := by
  rw [Parser.run_loop_eq_ok]
  constructor
  · exact h.phrases_of_rounds
  · rintro ⟨ps, qs, xs, reads, many, chain, last⟩
    exact h.rounds_of_phrases reads many chain last

end RoundOf

/-- The last phrase of most loops: one token, which changes nothing. -/
def Closing (last : Lexeme) (state : σ) : Phrase σ :=
  fun ps b => ps = [.token last] ∧ b = state

namespace RoundOf

variable {round : σ → Token → Parser (σ ⊕ σ)} {G : Phrase β} {allowed : σ → β → Prop}
variable {apply : σ → β → σ} {first : Lexeme → Prop} {last : Lexeme}

/-- A round ends at one token and there only; with every other token it reads a phrase. -/
theorem ofClosing (hlast : first last)
    (starts : ∀ {ps x}, G ps x → ∃ l qs, ps = .token l :: qs ∧ first l ∧ l ≠ last)
    (close : ∀ {S : Type} [TokenSource S] {s : S} {state pos},
      (round state ⟨last, pos⟩).run s = .ok (.inr state, s))
    (goesOn : ∀ {S : Type} [TokenSource S] {s s' : S} {state l pos b},
      l ≠ last → (round state ⟨l, pos⟩).run s ≠ .ok (.inr b, s'))
    (again : ∀ {S : Type} [TokenSource S] {s s' : S} {state l pos state'},
      l ≠ last → Ready s' first →
      ((round state ⟨l, pos⟩).run s = .ok (.inl state', s') ↔
        ∃ ps x, Reads s ps s' ∧ G (.token l :: ps) x ∧ allowed state x ∧ state' = apply state x)) :
    RoundOf round G allowed apply (Closing last) first := by
  refine ⟨?starts, ?ends, ?again, ?finish⟩
  case starts =>
    intro ps x hx
    obtain ⟨l, qs, rfl, hl, _⟩ := starts hx
    exact ⟨l, qs, rfl, hl⟩
  case ends =>
    intro state ps b hb
    exact ⟨last, [], hb.1, hlast⟩
  case again =>
    intro S _ s s' state l pos state' hready
    by_cases hl : l = last
    · subst hl
      rw [close]
      constructor
      · intro h
        cases h
      · rintro ⟨ps, x, _, hx, _⟩
        obtain ⟨_, _, hpieces, _, hne⟩ := starts hx
        cases hpieces
        exact absurd rfl hne
    · exact again hl hready
  case finish =>
    intro S _ s s' state l pos b
    by_cases hl : l = last
    · subst hl
      rw [close]
      constructor
      · intro h
        cases h
        exact ⟨[], .nil, rfl, rfl⟩
      · rintro ⟨ps, hreads, hpieces, rfl⟩
        cases hpieces
        cases hreads
        rfl
    · constructor
      · intro h
        exact absurd h (goesOn hl)
      · rintro ⟨ps, _, hpieces, _⟩
        cases hpieces
        exact absurd rfl hl

/-- A loop with a closing token reads phrases in a row up to that token. -/
theorem run_loop_closing_eq_ok (h : RoundOf round G allowed apply (Closing last) first)
    {state state' : σ} {s s' : S} : (loop round state).run s = .ok (state', s') ↔
      ∃ ps xs, Reads s (ps ++ [.token last]) s' ∧ Many G ps xs ∧ Chain allowed apply state xs ∧
        state' = xs.foldl apply state := by
  rw [h.run_loop_eq_ok]
  constructor
  · rintro ⟨ps, qs, xs, hreads, hmany, hchain, rfl, hstate⟩
    exact ⟨ps, xs, hreads, hmany, hchain, hstate⟩
  · rintro ⟨ps, xs, hreads, hmany, hchain, hstate⟩
    exact ⟨ps, _, xs, hreads, hmany, hchain, rfl, hstate⟩

end RoundOf

/-- The tokens that go on or end a block of entries. -/
def InBlock (l : Lexeme) : Prop :=
  l = .symbol .rightBrace ∨ ∃ w, l = .word w

/-- The same behind an entry that a semicolon may end. -/
def InStatement (l : Lexeme) : Prop :=
  InBlock l ∨ l = .symbol .semicolon

theorem InBlock.inStatement {l : Lexeme} (h : InBlock l) : InStatement l := .inl h

/-- What the parser for an entry makes of the phrase that starts with the word it is given. -/
structure EntryOf (entry : σ → String → Pos → Parser σ) (G : Phrase β) (allowed : σ → β → Prop)
    (apply : σ → β → σ) (follow : Lexeme → Prop) : Prop where
  starts : ∀ {ps x}, G ps x → ∃ w qs, ps = .word w :: qs
  run_eq_ok : ∀ {S : Type} [TokenSource S] {s s' : S} {state w pos state'}, Ready s' follow →
    ((entry state w pos).run s = .ok (state', s') ↔
      ∃ ps x, Reads s ps s' ∧ G (.word w :: ps) x ∧ allowed state x ∧ state' = apply state x)

namespace EntryOf

variable {entry : σ → String → Pos → Parser σ} {G : Phrase β} {allowed : σ → β → Prop}
variable {apply : σ → β → σ}

/-- A semicolon behind an entry is read with it, if there is one. -/
theorem statement (h : EntryOf entry G allowed apply InStatement) :
    EntryOf (fun state w pos => do
        let state' ← entry state w pos
        let _ ← eat .semicolon
        return state') (Statement G) allowed apply InBlock := by
  constructor
  · intro ps x hx
    cases hx with
    | plain hx => exact h.starts hx
    | closed hx =>
      obtain ⟨w, qs, rfl⟩ := h.starts hx
      exact ⟨w, _, rfl⟩
  intro S _ s s' state w pos state' hready
  simp only [run_bind_eq_ok, run_eat_eq_ok, run_pure]
  constructor
  · rintro ⟨state₁, s₁, hentry, taken, s₂, heat, hpure⟩
    cases hpure
    rcases heat with ⟨_, hsemicolon⟩ | ⟨_, rfl, _⟩
    · have hfollow : Ready s₁ InStatement := ⟨_, _, hsemicolon, .inr rfl⟩
      obtain ⟨ps, x, hreads, hx, hallowed, hstate⟩ := (h.run_eq_ok hfollow).mp hentry
      exact ⟨_, x, hreads.append (.single hsemicolon), .closed hx, hallowed, hstate⟩
    · obtain ⟨ps, x, hreads, hx, hallowed, hstate⟩ :=
        (h.run_eq_ok (hready.imp fun _ => InBlock.inStatement)).mp hentry
      exact ⟨ps, x, hreads, .plain hx, hallowed, hstate⟩
  · rintro ⟨ps, x, hreads, hx, hallowed, hstate⟩
    generalize hpieces : Piece.word w :: ps = pieces at hx
    cases hx with
    | plain hx =>
      subst hpieces
      have hfollow := hready.imp fun _ => InBlock.inStatement
      have hentry : (entry state w pos).run s = .ok (state', s') :=
        (h.run_eq_ok hfollow).mpr ⟨ps, x, hreads, hx, hallowed, hstate⟩
      refine ⟨state', s', hentry, false, s', .inr ⟨rfl, rfl, hready.imp ?_⟩, rfl⟩
      rintro l (rfl | ⟨_, rfl⟩) <;> simp
    | @closed qs _ hx =>
      -- The semicolon is the token the entry itself has to stop before.
      obtain ⟨_, qs, rfl⟩ := h.starts hx
      cases hpieces
      obtain ⟨s₁, hfront, hback⟩ := reads_append.mp hreads
      have hsemicolon := reads_single.mp hback
      have hfollow : Ready s₁ InStatement := ⟨_, _, hsemicolon, .inr rfl⟩
      have hentry : (entry state w pos).run s = .ok (state', s₁) :=
        (h.run_eq_ok hfollow).mpr ⟨qs, x, hfront, hx, hallowed, hstate⟩
      exact ⟨state', s₁, hentry, true, s', .inl ⟨rfl, hsemicolon⟩, rfl⟩

/-- A block is a loop over its entries up to the closing brace. -/
theorem body_eq_loop (h : EntryOf entry G allowed apply InBlock)
    (expected : String) : ∃ round, (∀ state, body expected entry state = loop round state) ∧
      RoundOf round G allowed apply (Closing (.symbol .rightBrace)) InBlock := by
  refine ⟨_, fun _ => rfl, RoundOf.ofClosing (.inl rfl) ?starts rfl ?goesOn ?again⟩
  case starts =>
    intro ps x hx
    obtain ⟨w, qs, rfl⟩ := h.starts hx
    exact ⟨.word w, qs, rfl, .inr ⟨w, rfl⟩, by simp⟩
  case goesOn =>
    intro S _ s s' state l pos b hl hround
    split at hround
    · next hbrace => exact hl hbrace
    · obtain ⟨_, _, _, hagain⟩ := run_bind_eq_ok.mp hround
      cases hagain
    · cases hround
  case again =>
    intro S _ s s' state l pos state' _ hready
    constructor
    · intro hround
      split at hround
      · cases hround
      · next w hw =>
        obtain ⟨state₁, s₁, hentry, hagain⟩ := run_bind_eq_ok.mp hround
        cases hagain
        cases hw
        exact (h.run_eq_ok hready).mp hentry
      · cases hround
    · rintro ⟨ps, x, hreads, hx, hrest⟩
      obtain ⟨w, qs, hpieces⟩ := h.starts hx
      cases hpieces
      have hentry : (entry state w pos).run s = .ok (state', s') :=
        (h.run_eq_ok hready).mpr ⟨ps, x, hreads, hx, hrest⟩
      exact run_bind_eq_ok.mpr ⟨state', s', hentry, rfl⟩

/-- The inside of a block, its closing brace included. -/
theorem run_body_eq_ok (h : EntryOf entry G allowed apply InBlock)
    {expected : String} {state state' : σ} {s s' : S} :
    (body expected entry state).run s = .ok (state', s') ↔
      ∃ ps xs, Reads s (ps ++ [.symbol .rightBrace]) s' ∧ Many G ps xs ∧
        Chain allowed apply state xs ∧ state' = xs.foldl apply state := by
  obtain ⟨round, hbody, hround⟩ := h.body_eq_loop expected
  rw [hbody, hround.run_loop_closing_eq_ok]

theorem run_block_eq_ok (h : EntryOf entry G allowed apply InBlock)
    {expected : String} {state state' : σ} {s s' : S} :
    (expectSymbol .leftBrace >>= fun _ => body expected entry state).run s = .ok (state', s') ↔
      ∃ ps xs, Reads s ps s' ∧ Block G ps xs ∧
        Chain allowed apply state xs ∧ state' = xs.foldl apply state := by
  simp only [run_bind_eq_ok, run_expectSymbol_eq_ok, h.run_body_eq_ok]
  constructor
  · rintro ⟨_, s₁, ⟨pos, _, hopen⟩, ps, xs, hreads, hmany, hrest⟩
    exact ⟨_, xs, .cons (.token hopen) hreads, .mk hmany, hrest⟩
  · rintro ⟨_, xs, hreads, ⟨hmany⟩, hrest⟩
    cases hreads with
    | cons hopen hreads =>
      obtain ⟨hopen⟩ := hopen
      exact ⟨_, _, ⟨_, rfl, hopen⟩, _, xs, hreads, hmany, hrest⟩

/-- A name and a block, the state of the block made from the name. -/
theorem run_namedBlock_eq_ok (h : EntryOf entry G allowed apply InBlock)
    {expected : String} {start : String → σ} {state : σ} {s s' : S} :
    (expectName >>= fun name => expectSymbol .leftBrace >>= fun _ =>
        body expected entry (start name)).run s = .ok (state, s') ↔
      ∃ ps name xs, Reads s ps s' ∧ NamedBlock G ps (name, xs) ∧
        Chain allowed apply (start name) xs ∧ state = xs.foldl apply (start name) := by
  rw [run_bind_eq_ok]
  simp only [run_expectName_eq_ok, h.run_block_eq_ok]
  constructor
  · rintro ⟨name, s₁, ⟨l, hname, hgives⟩, ps, xs, hreads, hblock, hrest⟩
    exact ⟨_, name, xs, .cons hgives hreads, .mk hname hblock, hrest⟩
  · rintro ⟨_, name, xs, hreads, ⟨hname, hblock⟩, hrest⟩
    cases hreads with
    | cons hgives hreads => exact ⟨name, _, ⟨_, hname, hgives⟩, _, xs, hreads, hblock, hrest⟩

end EntryOf

end Kfx.Grammar
