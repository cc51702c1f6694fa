import Kfx.Proofs.Grammar.Composition

/-!
# How shader blocks nest

The outline of a source has the braces of its blocks in the order in which they stand. A counter
that goes up with each opening brace and down with each closing one gives the blocks their levels,
and items are read if and only if no level is above the limit.
-/
namespace Kfx.Grammar

open Kfx.Grammar.Parser

inductive Brace
  | opens (pos : Pos)
  | closes
  deriving DecidableEq

/-- The counter of open blocks behind some braces. -/
def counter (d : Nat) : List Brace → Nat
  | [] => d
  | .opens _ :: braces => counter (d + 1) braces
  | .closes :: braces => counter (d - 1) braces

/-- A block: the counter behind its opening brace, and the place of the brace. -/
structure Opening where
  level : Nat
  pos : Pos
  deriving DecidableEq

/-- The blocks in the order of their opening braces. -/
def openings (d : Nat) : List Brace → List Opening
  | [] => []
  | .opens pos :: braces => ⟨d + 1, pos⟩ :: openings (d + 1) braces
  | .closes :: braces => openings (d - 1) braces

def firstAt (level d : Nat) (braces : List Brace) : Option Opening :=
  (openings d braces).find? fun o => o.level = level

def depth (braces : List Brace) : Nat :=
  ((openings 0 braces).map Opening.level).foldr max 0

section

variable {d level limit : Nat} {pos : Pos} {braces inner more : List Brace}

theorem counter_append : counter d (inner ++ more) = counter (counter d inner) more := by
  induction inner generalizing d with
  | nil => rfl
  | cons b inner ih => cases b <;> exact ih

theorem openings_append :
    openings d (inner ++ more) = openings d inner ++ openings (counter d inner) more := by
  induction inner generalizing d with
  | nil => rfl
  | cons b inner ih =>
    cases b with
    | opens pos => exact congrArg (_ :: ·) ih
    | closes => exact ih

theorem openings_block (hinner : counter (d + 1) inner = d + 1) :
    openings d (.opens pos :: (inner ++ .closes :: more)) =
      ⟨d + 1, pos⟩ :: (openings (d + 1) inner ++ openings d more) := by
  rw [openings, openings_append, hinner]
  rfl

/-- The counter goes up by one at a time, so it passes the limit at a block one above it. -/
theorem firstAt_eq_none (hd : d ≤ limit) :
    firstAt (limit + 1) d braces = none ↔ ∀ o ∈ openings d braces, o.level ≤ limit := by
  induction braces generalizing d with
  | nil => simp [firstAt, openings]
  | cons b braces ih =>
    cases b with
    | closes => exact ih (by omega)
    | opens pos =>
      rcases Nat.eq_or_lt_of_le hd with rfl | hlt
      · simp only [firstAt, openings, List.find?_cons_of_pos, decide_true, List.mem_cons,
          forall_eq_or_imp, reduceCtorEq, false_iff, not_and]
        omega
      · have hrest := ih (d := d + 1) hlt
        have hne : ¬ d = limit := by omega
        simp only [firstAt] at hrest
        simp [firstAt, openings, hne, hrest]
        omega

theorem depth_le : depth braces ≤ limit ↔ ∀ o ∈ openings 0 braces, o.level ≤ limit := by
  unfold depth
  induction openings 0 braces with
  | nil => simp
  | cons o os ih =>
    rw [List.map_cons, List.foldr_cons, Nat.max_le, ih]
    simp

theorem firstAt_block (hinner : counter (d + 1) inner = d + 1) :
    firstAt level d (.opens pos :: (inner ++ .closes :: more)) =
      if d + 1 = level then some ⟨d + 1, pos⟩
      else (firstAt level (d + 1) inner).or (firstAt level d more) := by
  unfold firstAt
  rw [openings_block hinner]
  split <;> simp [*]

end

/-- Items through the token that ends them: the braces of the `Shader` blocks among them, and the
definitions that they stand for. How deep the blocks nest is left open. -/
inductive Outline {S : Type} [TokenSource S] :
    Lexeme → S → List Brace → List Definition → S → Prop
  | last {last s pos s'} (h : TokenSource.next s = (.ok ⟨last, pos⟩, s')) : Outline last s [] [] s'
  | shader {last s s₁ s₂ s₃ s₄ s' l name pos inner ds more es} (word : Gives s (.word "Shader") s₁)
      (hl : Gives s₁ (.token l) s₂) (hname : IsName l name)
      (brace : TokenSource.next s₂ = (.ok ⟨.symbol .leftBrace, pos⟩, s₃))
      (block : Outline (.symbol .rightBrace) s₃ inner ds s₄) (rest : Outline last s₄ more es s') :
    Outline last s (.opens pos :: (inner ++ .closes :: more)) (.effectName name :: (ds ++ es)) s'
  | other {last s ps ds s₁ more es s'} (item : IsItem (fun _ _ => False) ps ds)
      (reads : Reads s ps s₁) (rest : Outline last s₁ more es s') :
    Outline last s more (ds ++ es) s'

section

variable {S : Type} [TokenSource S] {s s₁ s₂ s₃ s' : S} {l last : Lexeme} {name : String}
variable {pos : Pos} {braces : List Brace} {ps : List Piece} {ds : List Definition}

theorem IsItem.mono {Nested Nested' : Phrase (List Definition)} (h : IsItem Nested ps ds)
    (hsub : ∀ ps ds, Nested ps ds → Nested' ps ds) : IsItem Nested' ps ds := by
  cases h with
  | shader hname hitems => exact .shader hname (hsub _ _ hitems)
  | layout hblock => exact .layout hblock
  | code hname => exact .code hname
  | renderState hstate => exact .renderState hstate
  | renderStates hblock => exact .renderStates hblock
  | pass hpass => exact .pass hpass
  | other hw => exact .other hw

/-- Behind a block the counter is where it was before. -/
theorem Outline.counter_eq (h : Outline last s braces ds s') (d : Nat) : counter d braces = d := by
  induction h generalizing d with
  | last h => rfl
  | shader _ _ _ _ _ _ ihblock ihrest =>
    rw [counter, counter_append, ihblock]
    exact ihrest d
  | other _ _ _ ih => exact ih d

/-- From further inside all levels are higher by as much. -/
theorem Outline.openings_add (h : Outline last s braces ds s') (d k : Nat) :
    openings (d + k) braces = (openings d braces).map fun o => ⟨o.level + k, o.pos⟩ := by
  induction h generalizing d with
  | last h => rfl
  | shader _ _ _ _ block _ ihblock ihrest =>
    rw [openings_block (block.counter_eq _), openings_block (block.counter_eq _), ihrest,
      Nat.add_right_comm, ihblock]
    simp
  | other _ _ _ ih => exact ih d

/-- A `Shader` block and the items behind it, both with `nested` for the blocks they open. -/
theorem run_itemsUpTo_shader (hlast : ∀ w, last ≠ .word w) (word : Gives s (.word "Shader") s₁)
    (hl : Gives s₁ (.token l) s₂) (hname : IsName l name)
    (brace : TokenSource.next s₂ = (.ok ⟨.symbol .leftBrace, pos⟩, s₃))
    (nested : Pos → Effect → Parser Effect) (e : Effect) : (itemsUpTo last nested e).run s =
      ((nested pos { e with name }).run s₃).bind fun x => (itemsUpTo last nested x.1).run x.2 := by
  obtain ⟨wordPos, hnext⟩ := word.next_eq
  have hrunName := run_expectName_eq_ok.mpr ⟨l, hname, hl⟩
  have hrunBrace := run_expectSymbol_eq_ok.mpr ⟨pos, rfl, brace⟩
  rw [itemsUpTo, run_loop, hnext]
  dsimp only
  rw [if_neg (hlast _).symm]
  have hitem : (item nested e "Shader" wordPos).run s₁ = (nested pos { e with name }).run s₃ := by
    unfold item
    simp only [run_bind, hrunName, Except.bind, run_warned, hrunBrace]
  rw [run_bind, hitem]
  cases (nested pos { e with name }).run s₃ with
  | error x => rfl
  | ok x => rfl

/-- Items other than `Shader` blocks are read at any depth. -/
theorem run_itemsUpTo_other (hlast : ∀ w, last ≠ .word w) (item : IsItem (fun _ _ => False) ps ds)
    (reads : Reads s ps s') (m : Nat) (e : Effect) :
    (itemsUpTo last (blockItems m) e).run s =
      (itemsUpTo last (blockItems m) (ds.foldl .add e)).run s' := by
  obtain ⟨Nested, hnested⟩ : ∃ Nested, ReadsItems (blockItems m) Nested := by
    cases m with
    | zero => exact ⟨_, readsItems_blockItems_zero⟩
    | succ m => exact ⟨_, readsItems_blockItems m⟩
  have hmany : Many (IsItem Nested) (ps ++ []) [ds] := .cons (item.mono fun _ _ => nofun) .nil
  have hrun := run_itemsUpTo_of_many hnested hlast hmany (by simpa using reads) e
  simpa using hrun

/-- Items are read unless a block is above the limit, and then the first one of these is refused at
its brace. The counter is at `d`, and `m` more levels may be opened. -/
theorem Outline.run_itemsUpTo (h : Outline last s braces ds s') (hlast : ∀ w, last ≠ .word w)
    (d m : Nat) (e : Effect) : (itemsUpTo last (blockItems m) e).run s =
      (firstAt (d + m + 1) d braces).elim (.ok (ds.foldl .add e, s'))
        fun o => .error (.tooDeep nestingLimit o.pos) := by
  induction h generalizing d m e with
  | last h => exact run_itemsUpTo_last h e
  | @shader last s s₁ s₂ s₃ s₄ s' l name pos inner ds more es word hl hname brace block rest
      ihblock ihrest =>
    rw [run_itemsUpTo_shader hlast word hl hname brace, firstAt_block (block.counter_eq _)]
    cases m with
    | zero =>
      -- No level is left, so the block itself is refused.
      rw [if_pos (by omega)]
      rfl
    | succ m =>
      rw [if_neg (by omega), blockItems, ihblock (by simp) (d + 1) m]
      have hlevel : d + 1 + m + 1 = d + (m + 1) + 1 := by omega
      rw [hlevel]
      cases firstAt (d + (m + 1) + 1) (d + 1) inner with
      | some o => rfl
      | none =>
        rw [Option.none_or]
        have hrest := ihrest hlast d (m + 1) (ds.foldl .add { e with name })
        simpa [Except.bind, Effect.add] using hrest
  | other item reads _ ih =>
    rw [run_itemsUpTo_other hlast item reads, ih hlast d m, List.foldl_append]

/-- Items that are not `Shader` blocks give no name. -/
theorem IsItem.unnamed (h : IsItem (fun _ _ => False) ps ds) (name : String) :
    .effectName name ∉ ds := by
  intro hname
  cases h with
  | shader _ hfalse => exact hfalse.elim
  | layout hblock =>
    obtain ⟨many⟩ := hblock
    obtain ⟨qs, hentry⟩ := many.exists_of_mem hname
    cases hentry
  | code _ => simp at hname
  | renderState _ => simp at hname
  | renderStates _ => simp at hname
  | pass _ => simp at hname
  | other _ => cases hname

/-- A name is given where there are blocks. -/
theorem Outline.named_iff (h : Outline last s braces ds s') :
    braces ≠ [] ↔ ∃ name, .effectName name ∈ ds := by
  induction h with
  | last h => simp
  | @shader _ _ _ _ _ _ _ _ name => exact ⟨fun _ => ⟨name, List.mem_cons_self⟩, fun _ => nofun⟩
  | other item _ _ ih => simp [ih, item.unnamed]

/-- Items in a row have an outline if what stands in blocks has one. -/
theorem outline_of_many {Nested : Phrase (List Definition)}
    (hnested : ∀ ps ds (s s' : S), Nested ps ds → Reads s (ps ++ [.symbol .rightBrace]) s' →
      ∃ braces, Outline (.symbol .rightBrace) s braces ds s')
    {lists : List (List Definition)} (many : Many (IsItem Nested) ps lists)
    (reads : Reads s (ps ++ [.token last]) s') :
    ∃ braces, Outline last s braces lists.flatten s' := by
  induction many generalizing s with
  | nil =>
    obtain ⟨hnext⟩ := reads_single.mp reads
    exact ⟨[], .last hnext⟩
  | cons head tail ih =>
    rw [List.append_assoc] at reads
    obtain ⟨s₁, hhead, htail⟩ := reads_append.mp reads
    obtain ⟨more, hmore⟩ := ih htail
    cases head with
    | shader hname hitems =>
      simp only [reads_cons] at hhead
      obtain ⟨s₂, word, s₃, hl, s₄, ⟨brace⟩, hreads⟩ := hhead
      obtain ⟨inner, hinner⟩ := hnested _ _ _ _ hitems hreads
      exact ⟨_, .shader word hl hname brace hinner hmore⟩
    | layout hblock => exact ⟨more, .other (.layout hblock) hhead hmore⟩
    | code hname => exact ⟨more, .other (.code hname) hhead hmore⟩
    | renderState hstate => exact ⟨more, .other (.renderState hstate) hhead hmore⟩
    | renderStates hblock => exact ⟨more, .other (.renderStates hblock) hhead hmore⟩
    | pass hpass => exact ⟨more, .other (.pass hpass) hhead hmore⟩
    | other hw => exact ⟨more, .other (.other hw) hhead hmore⟩

theorem outline_of_items (depth : Nat) (items : IsItems depth ps ds)
    (reads : Reads s (ps ++ [.token last]) s') : ∃ braces, Outline last s braces ds s' := by
  induction depth generalizing ps ds last s s' with
  | zero =>
    obtain ⟨many⟩ := items
    exact outline_of_many (fun _ _ _ _ hfalse => hfalse.elim) many reads
  | succ depth ih =>
    obtain ⟨many⟩ := items
    exact outline_of_many (fun _ _ _ _ hitems hreads => ih hitems hreads) many reads

/-- Related sources have the same outlines. -/
theorem Outline.transfer {T : Type} [TokenSource T] {related : S → T → Prop} {t : T}
    (h : Outline last s braces ds s') (halike : AnswersAlike related) (hs : related s t) :
    ∃ t', Outline last t braces ds t' ∧ related s' t' := by
  induction h generalizing t with
  | last h =>
    obtain ⟨t', hnext, hs'⟩ := halike.next_eq hs h
    exact ⟨t', .last hnext, hs'⟩
  | shader word hl hname brace _ _ ihblock ihrest =>
    obtain ⟨t₁, word', hs₁⟩ := word.transfer halike hs
    obtain ⟨t₂, hl', hs₂⟩ := hl.transfer halike hs₁
    obtain ⟨t₃, brace', hs₃⟩ := halike.next_eq hs₂ brace
    obtain ⟨t₄, hblock, hs₄⟩ := ihblock hs₃
    obtain ⟨t', hrest, hs'⟩ := ihrest hs₄
    exact ⟨t', .shader word' hl' hname brace' hblock hrest, hs'⟩
  | other item reads _ ih =>
    obtain ⟨t₁, reads', hs₁⟩ := reads.transfer halike hs
    obtain ⟨t', hrest, hs'⟩ := ih hs₁
    exact ⟨t', .other item reads' hrest, hs'⟩

/-- An outline starts with a token, and that is all it takes of where it starts. -/
theorem Outline.congr (h : Outline last s braces ds s')
    (hnext : TokenSource.next s₁ = TokenSource.next s) :
    Outline last s₁ braces ds s' := by
  cases h with
  | last h => exact .last (hnext.trans h)
  | shader word hl hname brace block rest =>
    obtain ⟨hword⟩ := word
    exact .shader (.token (hnext.trans hword)) hl hname brace block rest
  | other item reads rest =>
    obtain ⟨w, qs, rfl⟩ := item.starts
    obtain ⟨s₂, ⟨hword⟩, hqs⟩ := reads_cons.mp reads
    exact .other item (.cons (.token (hnext.trans hword)) hqs) rest

end

section

variable {s s' : Stream} {last : Lexeme} {braces : List Brace} {ds : List Definition}

theorem Outline.unended (h : Outline last s braces ds s') : s.ended = false := by
  cases h with
  | last h => exact (Stream.next_eq_ok.mp h).1
  | shader word _ _ _ _ _ =>
    obtain ⟨hword⟩ := word
    exact (Stream.next_eq_ok.mp hword).1
  | other item reads _ =>
    obtain ⟨w, qs, rfl⟩ := item.starts
    obtain ⟨_, ⟨hword⟩, _⟩ := reads_cons.mp reads
    exact (Stream.next_eq_ok.mp hword).1

def Brace.down (k : Nat) : Brace → Brace
  | opens pos => opens (pos.down k)
  | closes => closes

theorem openings_down (d k : Nat) (braces : List Brace) :
    openings d (braces.map (Brace.down k)) =
      (openings d braces).map fun o => ⟨o.level, o.pos.down k⟩ := by
  induction braces generalizing d with
  | nil => rfl
  | cons b braces ih =>
    cases b with
    | opens pos => exact congrArg (_ :: ·) (ih (d + 1))
    | closes => exact ih (d - 1)

theorem Outline.down (k : Nat) (h : Outline last s braces ds s') :
    Outline last (s.down k) (braces.map (Brace.down k)) ds (s'.down k) := by
  induction h with
  | last h => exact .last (Stream.next_down_ok h)
  | shader word hl hname brace _ _ ihblock ihrest =>
    rw [List.map_cons, List.map_append, List.map_cons]
    exact .shader word.down hl.down hname (Stream.next_down_ok brace) ihblock ihrest
  | other item reads _ ih => exact .other item reads.down ih

/-- When the text goes on behind a line feed, only the token that ends the items may be another. -/
theorem Outline.continued {more : List Char} {last' : Lexeme} {t' : Stream}
    (h : Outline last s braces ds s')
    (hend : ∀ (t : Stream) pos, t.next = (.ok ⟨last, pos⟩, s') →
      ∃ pos', (t.continued more).next = (.ok ⟨last', pos'⟩, t')) :
    Outline last' (s.continued more) braces ds t' := by
  induction h generalizing last' t' with
  | last h =>
    obtain ⟨pos', hnext⟩ := hend _ _ h
    exact .last hnext
  | @shader last s s₁ s₂ s₃ s₄ s' l name pos inner ds more' es word hl hname brace block rest
      ihblock ihrest =>
    have hs₂ := (Stream.next_eq_ok.mp brace).1
    have hs₁ := (hl.not_ended hs₂).1
    have hbrace := Stream.next_continued brace (by simp) more
    -- Inside the block the text is as it was.
    have hblock := ihblock fun t pos hnext => ⟨pos, Stream.next_continued hnext (by simp) more⟩
    exact .shader (word.continued hs₁ more) (hl.continued hs₂ more) hname hbrace hblock
      (ihrest hend)
  | other item reads rest ih => exact .other item (reads.continued rest.unended more) (ih hend)

end

end Kfx.Grammar
