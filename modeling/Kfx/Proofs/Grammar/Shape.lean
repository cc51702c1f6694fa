import Kfx.Grammar.Source
import Kfx.Proofs.Grammar.Alike

/-!
# How the parsers of the grammar are built

Each parser of the grammar is alike to itself, or to itself with another effect to add to. What
follows for all of them, such as where errors are placed, follows from this one account.
-/
namespace Kfx.Grammar

open Kfx.Grammar.Parser

variable {P : Pos → Pos → Prop} {before : Option Lexeme} {final : Bool} {pos pos' : Pos}

section

variable {α β σ τ : Type} {R : α → α → Prop} {S : β → β → Prop}

theorem alike_again {I : σ → σ → Prop} {R : τ → τ → Prop} {a b : σ} (h : I a b) :
    Alike P before final (RoundsAlike I R) (again a) (again b) :=
  .pure (.again h)

theorem alike_done {I : σ → σ → Prop} {R : τ → τ → Prop} {a b : τ} (h : R a b) :
    Alike P before final (RoundsAlike I R) (done a) (done b) :=
  .pure (.done h)

/-- The same steps on both sides of a test that places have no part in. -/
theorem alike_ite {c : Prop} [Decidable c] {p p' q q' : Parser α}
    (h : Alike P before final R p q) (h' : Alike P before final R p' q') :
    Alike P before final R (if c then p else p') (if c then q else q') := by
  split
  · exact h
  · exact h'

theorem stops_ite {c : Prop} [Decidable c] {p p' q q' : Parser α} (hc : ¬ c)
    (h : Stops P final R p' q') : Stops P final R (if c then p else p') (if c then q else q') := by
  rwa [if_neg hc, if_neg hc]

theorem alike_mismatch (expected : String) (l : Lexeme) (h : P pos pos') :
    Alike P before final R (mismatch expected ⟨l, pos⟩) (mismatch expected ⟨l, pos'⟩) :=
  .fail (.mk h trivial)

theorem stops_mismatch (expected : String) (l : Lexeme) (h : P pos pos') :
    Stops P final R (mismatch expected ⟨l, pos⟩) (mismatch expected ⟨l, pos'⟩) :=
  .fail (.mk h trivial)

/-- Nothing is read behind an error. -/
theorem alike_fail_bind {e e' : ParseError} {f g : α → Parser β} (h : e.Alike P e') :
    Alike P before final S (fail e >>= f) (fail e' >>= g) :=
  .bind (R := fun _ _ => False) (.fail h) fun _ _ hfalse => hfalse.elim

/-- A step that gives the same in both. -/
theorem Alike.andThen {p q : Parser α} {f g : α → Parser β} (h : Alike P before false Eq p q)
    (rest : ∀ a, Alike P none final S (f a) (g a)) :
    Alike P before final S (p >>= f) (q >>= g) := by
  refine .bind h ?_
  rintro a _ rfl
  exact rest a

theorem alike_expectSymbol (y : Symbol) :
    Alike P before final (TokensAlike P) (expectSymbol y) (expectSymbol y) := by
  refine .token (fun l pos pos' h _ => ?_) fun pos pos' h => ?_
  · exact alike_ite (.pure (.mk h)) (alike_mismatch _ _ h)
  · exact stops_ite (by simp) (stops_mismatch _ _ h)

theorem expectSymbol_bind {y : Symbol} {f g : Token → Parser β}
    (rest : ∀ l pos pos', P pos pos' → Alike P none final S (f ⟨l, pos⟩) (g ⟨l, pos'⟩)) :
    Alike P before final S (expectSymbol y >>= f) (expectSymbol y >>= g) := by
  refine .bind (alike_expectSymbol y) ?_
  rintro _ _ ⟨h⟩
  exact rest _ _ _ h

theorem alike_expectWord : Alike P before final (WordsAlike P) expectWord expectWord := by
  refine .token (fun l pos pos' h _ => ?_) fun pos pos' h => stops_mismatch _ _ h
  dsimp only
  split
  · exact .pure (.mk h)
  · exact alike_mismatch _ _ h

theorem expectWord_bind {f g : String × Pos → Parser β}
    (rest : ∀ w pos pos', P pos pos' → Alike P none final S (f (w, pos)) (g (w, pos'))) :
    Alike P before final S (expectWord >>= f) (expectWord >>= g) := by
  refine .bind alike_expectWord ?_
  rintro _ _ ⟨h⟩
  exact rest _ _ _ h

theorem alike_expectKeyword (keyword : String) :
    Alike P before final Eq (expectKeyword keyword) (expectKeyword keyword) := by
  refine .token (fun l pos pos' h _ => ?_) fun pos pos' h => ?_
  · exact alike_ite (.pure rfl) (.fail (.mk h trivial))
  · exact stops_ite (by simp) (.fail (.mk h trivial))

theorem alike_expectName : Alike P before final Eq expectName expectName := by
  refine .token (fun l pos pos' h _ => ?_) fun pos pos' h => stops_mismatch _ _ h
  dsimp only
  split
  · exact .pure rfl
  · exact alike_mismatch _ _ h

theorem alike_expectCount (what : String) :
    Alike P before final Eq (expectCount what) (expectCount what) := by
  refine .token (fun l pos pos' h _ => ?_) fun pos pos' h => stops_mismatch _ _ h
  dsimp only
  split
  · split
    · exact .pure rfl
    · exact .fail (.mk h trivial)
  · exact alike_mismatch _ _ h

theorem alike_expectNumber (what : String) :
    Alike P before final Eq (expectNumber what) (expectNumber what) := by
  refine .token (fun l pos pos' h _ => ?_) fun pos pos' h => stops_mismatch _ _ h
  dsimp only
  split
  · exact .pure rfl
  · exact alike_mismatch _ _ h

theorem alike_expectFrom (what : String) (table : String → Option α) :
    Alike P before final Eq (expectFrom what table) (expectFrom what table) := by
  refine expectWord_bind fun w pos pos' h => ?_
  dsimp only
  split
  · exact .pure rfl
  · exact .fail (.mk h trivial)

/-- Blocks whose entries are alike. -/
theorem alike_body {I : σ → σ → Prop} {expected : String} {entry : σ → String → Pos → Parser σ}
    (step : ∀ a b w pos pos', I a b → P pos pos' →
      Alike P (some (.word w)) false I (entry a w pos) (entry b w pos')) {a b : σ} (start : I a b) :
    Alike P before final I (body expected entry a) (body expected entry b) := by
  refine .loop (fun a b l pos pos' hab h _ => ?_) (fun a b pos pos' _ h => ?_) start
  · dsimp only
    split
    · exact alike_done hab
    · exact .bind (step _ _ _ _ _ hab h) fun _ _ hab => alike_again hab
    · exact alike_mismatch _ _ h
  · exact stops_mismatch _ _ h

theorem alike_bodyOfStatements {I : σ → σ → Prop} {expected : String}
    {entry : σ → String → Pos → Parser σ}
    (step : ∀ a b w pos pos', I a b → P pos pos' →
      Alike P (some (.word w)) false I (entry a w pos) (entry b w pos')) {a b : σ} (start : I a b) :
    Alike P before final I (bodyOfStatements expected entry a)
      (bodyOfStatements expected entry b) := by
  refine alike_body (fun a b w pos pos' hab h => ?_) start
  exact .bind (step a b w pos pos' hab h) fun _ _ hab => (Alike.eat _).andThen fun _ => .pure hab

end

theorem alike_arrayLength (l : Lexeme) (h : P pos pos') :
    Alike P before final Eq (arrayLength ⟨l, pos⟩) (arrayLength ⟨l, pos'⟩) := by
  unfold arrayLength
  dsimp only
  split
  · exact .pure rfl
  · refine alike_ite (alike_fail_bind (.mk h trivial)) ?_
    split
    · exact .fail (.mk h trivial)
    · refine .token (fun l pos pos' h _ => ?_) fun pos pos' h => ?_
      · exact alike_ite (.pure rfl) (alike_fail_bind (.mk h trivial))
      · exact stops_ite (by simp) (.bind (R := Eq) (.fail (.mk h trivial)))
  · exact .fail (.mk h trivial)

theorem alike_dataType (l : Lexeme) (h : P pos pos') :
    Alike P before final Eq (dataType ⟨l, pos⟩) (dataType ⟨l, pos'⟩) := by
  unfold dataType
  dsimp only
  split
  · split
    · exact .fail (.mk h trivial)
    · refine (Alike.eat _).andThen fun taken => alike_ite ?_ (.pure rfl)
      refine .token (fun l pos pos' h _ => ?_) fun pos pos' h => ?_
      · exact (alike_arrayLength l h).andThen fun _ => .pure rfl
      · exact .bind (R := Eq) (.fail (.mk h trivial))
  · exact alike_mismatch _ _ h

theorem alike_stageList : Alike P before final Eq stageList stageList := by
  refine .loop (I := Eq) (fun mask _ l pos pos' hmask h _ => ?_) (fun _ _ pos pos' _ h => ?_) rfl
  · subst hmask
    dsimp only
    split
    · split
      · exact .fail (.mk h trivial)
      · refine .token (fun l pos pos' h _ => ?_) fun pos pos' h => stops_mismatch _ _ h
        dsimp only
        split
        · exact alike_again rfl
        · exact alike_done rfl
        · exact alike_mismatch _ _ h
    · exact alike_mismatch _ _ h
  · exact stops_mismatch _ _ h

theorem alike_skipValue : Alike P before final Eq skipValue skipValue := by
  refine .loop (I := Eq) (fun _ _ l pos pos' _ h _ => ?_) (fun _ _ pos pos' _ h => ?_) rfl
  · dsimp only
    split
    · exact alike_done rfl
    · exact alike_mismatch _ _ h
    · exact alike_again rfl
  · exact stops_mismatch _ _ h

theorem alike_vertexEntry (v : VertexLayout) (w : String) (h : P pos pos') :
    Alike P before final Eq (vertexEntry v w pos) (vertexEntry v w pos') := by
  unfold vertexEntry
  split
  · refine .token (fun l pos pos' h _ => ?_) fun pos pos' h => ?_
    · refine (alike_dataType l h).andThen fun format => expectWord_bind fun _ _ _ _ => ?_
      refine (alike_expectCount _).andThen fun _ => (alike_expectCount _).andThen fun _ => ?_
      exact (alike_expectCount _).andThen fun _ => .pure rfl
    · exact .bind (R := Eq) (stops_mismatch _ _ h)
  · refine (alike_expectCount _).andThen fun _ => (alike_expectCount _).andThen fun _ => ?_
    exact (alike_expectFrom _ _).andThen fun _ => .pure rfl
  · exact .fail (.mk h trivial)

theorem alike_vertexLayout : Alike P before final Eq vertexLayout vertexLayout := by
  refine alike_expectName.andThen fun name => expectSymbol_bind fun _ _ _ _ => ?_
  refine alike_bodyOfStatements ?_ rfl
  rintro v _ w pos pos' rfl h
  exact alike_vertexEntry v w h

theorem alike_property (b : ResourceBinding) (key : String) (pos pos' : Pos) :
    Alike P before final Eq (property b key pos) (property b key pos') := by
  refine expectSymbol_bind fun _ _ _ _ => ?_
  have hcount : ∀ (what : String) (f : UInt32 → ResourceBinding),
      Alike P none final Eq
        (expectCount what >>= fun n => expectSymbol .rightParen >>= fun _ => Pure.pure (f n))
        (expectCount what >>= fun n => expectSymbol .rightParen >>= fun _ => Pure.pure (f n)) :=
    fun what f => (alike_expectCount what).andThen fun _ =>
      expectSymbol_bind fun _ _ _ _ => .pure rfl
  split
  · exact alike_stageList.andThen fun _ => .pure rfl
  · exact hcount _ _
  · exact hcount _ _
  · exact hcount _ _
  · refine Alike.andThen (.say rfl) fun _ => ?_
    exact alike_skipValue.andThen fun _ => .pure rfl

theorem alike_properties (b : ResourceBinding) :
    Alike P before final Eq (properties b) (properties b) := by
  refine .loop (I := Eq) ?_ (fun _ _ pos pos' _ h => ?_) rfl
  · rintro b _ l pos pos' rfl h -
    dsimp only
    split
    · exact alike_done rfl
    · exact (alike_property b _ pos pos').andThen fun _ => alike_again rfl
    · exact alike_mismatch _ _ h
  · exact stops_mismatch _ _ h

theorem alike_resourceEntry (block : ResourceBlock) (w : String) (h : P pos pos') :
    Alike P before final Eq (resourceEntry block w pos) (resourceEntry block w pos') := by
  unfold resourceEntry
  split
  · exact .fail (.mk h trivial)
  · exact expectWord_bind fun _ _ _ _ => (alike_properties _).andThen fun _ => .pure rfl

theorem alike_resourceBlock : Alike P before final Eq resourceBlock resourceBlock := by
  refine alike_expectName.andThen fun name => expectSymbol_bind fun _ _ _ _ => ?_
  refine alike_body ?_ rfl
  rintro block _ w pos pos' rfl h
  exact alike_resourceEntry block w h

theorem alike_bufferField (l : Lexeme) (h : P pos pos') :
    Alike P before final Eq (bufferField ⟨l, pos⟩) (bufferField ⟨l, pos'⟩) := by
  refine (alike_dataType l h).andThen fun type => expectWord_bind fun name _ _ _ => ?_
  refine .token (fun l pos pos' h _ => ?_) fun pos pos' h => stops_mismatch _ _ h
  dsimp only
  split
  · refine expectSymbol_bind fun _ _ _ _ => alike_stageList.andThen fun _ => ?_
    exact expectSymbol_bind fun _ _ _ _ => .pure rfl
  · exact .pure rfl
  · exact alike_mismatch _ _ h

theorem alike_buffer : Alike P before final Eq buffer buffer := by
  refine alike_expectName.andThen fun name => expectSymbol_bind fun _ _ _ _ => ?_
  refine Alike.andThen (.loop (I := Eq) ?_ (fun _ _ pos pos' _ h => ?_) rfl) fun fields => .pure rfl
  · rintro fields _ l pos pos' rfl h -
    dsimp only
    split
    · exact alike_done rfl
    · exact (alike_bufferField l h).andThen fun field => alike_again rfl
  · exact .bind (R := Eq) (.bind (R := Eq) (stops_mismatch _ _ h))

/-- Values that nothing is said of. -/
def Free {α : Type} (_ _ : α) : Prop := True

/-- What is made of a value may be anything. -/
theorem Alike.free {α β : Type} {p : Parser α} {f g : α → β} (h : Alike P before false Eq p p) :
    Alike P before final Free (p >>= fun a => Pure.pure (f a)) (p >>= fun a => Pure.pure (g a)) :=
  h.andThen fun _ => .pure trivial

theorem alike_layoutEntry (e e' : Effect) (w : String) (h : P pos pos') :
    Alike P before final Free (layoutEntry e w pos) (layoutEntry e' w pos') := by
  unfold layoutEntry
  split
  · exact alike_vertexLayout.free
  · exact (alike_expectKeyword _).andThen fun _ => alike_resourceBlock.free
  · exact (alike_expectKeyword _).andThen fun _ => alike_resourceBlock.free
  · exact alike_resourceBlock.free
  · exact alike_buffer.free
  · exact alike_buffer.free
  · exact alike_buffer.free
  · exact .fail (.mk h trivial)

theorem alike_layout (e e' : Effect) : Alike P before final Free (layout e) (layout e') :=
  expectSymbol_bind fun _ _ _ _ =>
    alike_body (fun e e' w _ _ _ h => alike_layoutEntry e e' w h) trivial

theorem alike_blend (mode : BlendMode) : Alike P before final Eq (blend mode) (blend mode) := by
  refine expectWord_bind fun w pos pos' h => alike_ite (.pure rfl) ?_
  dsimp only
  split
  · exact .fail (.mk h trivial)
  · refine (alike_expectFrom _ _).andThen fun dst => Alike.andThen ?_ fun _ => .pure rfl
    refine (Alike.eat _).andThen fun taken => alike_ite ?_ (.pure rfl)
    refine (alike_expectFrom _ _).andThen fun a => (alike_expectFrom _ _).andThen fun b => ?_
    exact .pure rfl

theorem alike_stateEntry (state : RenderState) (w : String) (h : P pos pos') :
    Alike P before final Eq (stateEntry state w pos) (stateEntry state w pos') := by
  unfold stateEntry
  split
  · exact (alike_expectFrom _ _).andThen fun _ => .pure rfl
  · exact (alike_expectFrom _ _).andThen fun _ => .pure rfl
  · exact (alike_expectFrom _ _).andThen fun _ => .pure rfl
  · exact (alike_blend _).andThen fun _ => .pure rfl
  · refine (alike_expectFrom _ _).andThen fun color => Alike.andThen ?_ fun _ => .pure rfl
    exact (Alike.eat _).andThen fun _ => alike_ite (alike_expectFrom _ _) (.pure rfl)
  · exact (alike_expectFrom _ _).andThen fun _ => .pure rfl
  · exact (alike_expectNumber _).andThen fun _ => .pure rfl
  · exact .fail (.mk h trivial)

theorem alike_renderState (name : String) :
    Alike P before final Eq (renderState name) (renderState name) := by
  refine expectSymbol_bind fun _ _ _ _ => alike_bodyOfStatements ?_ rfl
  rintro state _ w pos pos' rfl h
  exact alike_stateEntry state w h

theorem alike_renderStates (states states' : List RenderState) :
    Alike P before final Free (renderStates states) (renderStates states') := by
  refine .token (fun l pos pos' h _ => ?_) fun pos pos' h => stops_mismatch _ _ h
  dsimp only
  split
  · refine .loop (I := Free) (fun _ _ l pos pos' _ h _ => ?_) (fun _ _ pos pos' _ h => ?_) trivial
    · dsimp only
      split
      · exact alike_done trivial
      · refine alike_expectName.andThen fun name => (alike_renderState name).andThen fun _ => ?_
        exact alike_again trivial
      · exact .fail (.mk h trivial)
    · exact .fail (.mk h trivial)
  · split
    · exact alike_mismatch _ _ h
    · exact (alike_renderState _).free

theorem alike_link (p : Pass) (present : Option Link) (what : String) (h : P pos pos') :
    Alike P before final Eq (link p present what pos) (link p present what pos') :=
  alike_ite (alike_fail_bind (.mk h trivial)) (alike_expectName.andThen fun _ => .pure rfl)

theorem alike_passEntry (p : Pass) (w : String) (h : P pos pos') :
    Alike P before final Eq (passEntry p w pos) (passEntry p w pos') := by
  unfold passEntry
  split
  · exact (alike_link p _ _ h).andThen fun _ => .pure rfl
  · exact (alike_link p _ _ h).andThen fun _ => .pure rfl
  · exact (alike_link p _ _ h).andThen fun _ => .pure rfl
  · exact (alike_link p _ _ h).andThen fun _ => .pure rfl
  · split
    · exact .fail (.mk h trivial)
    · exact alike_expectName.andThen fun _ => .pure rfl

theorem alike_pass : Alike P before final Eq pass pass := by
  refine alike_expectName.andThen fun name => expectSymbol_bind fun _ _ _ _ => ?_
  refine alike_bodyOfStatements ?_ rfl
  rintro p _ w pos pos' rfl h
  exact alike_passEntry p w h

theorem alike_codeFragment :
    Alike P (some (.word "GLSL")) final Eq codeFragment codeFragment :=
  .code alike_expectName fun _ _ _ _ => .pure rfl

/-- Only one of two parsers may have to warn. -/
theorem alike_warned {c c' : Prop} [Decidable c] [Decidable c'] {α : Type} {R : α → α → Prop}
    {level : LogLevel} {text text' : String} {p q : Parser α} (h : Alike P before final R p q) :
    Alike P before final R (if c then say level text >>= fun _ => p else p)
      (if c' then say level text' >>= fun _ => q else q) := by
  split
  · split
    · exact h.sayRight.sayLeft
    · exact h.sayLeft
  · split
    · exact h.sayRight
    · exact h

section

variable {nested : Pos → Effect → Parser Effect}
  (hnested : ∀ pos pos' e e', P pos pos' →
    Alike P none false Free (nested pos e) (nested pos' e'))
include hnested

theorem alike_item (e e' : Effect) (w : String) (pos pos' : Pos) :
    Alike P (some (.word w)) false Free (item nested e w pos) (item nested e' w pos') := by
  unfold item
  split
  · refine alike_expectName.andThen fun name => alike_warned ?_
    exact expectSymbol_bind fun _ pos pos' h => hnested pos pos' _ _ h
  · exact alike_layout e e'
  · exact alike_codeFragment.free
  · exact .bind (alike_renderStates _ _) fun _ _ _ => .pure trivial
  · exact alike_pass.free
  · exact Alike.andThen (.say rfl) fun _ => .pure trivial

/-- Items may end with the text only if the end of input is what ends them. -/
theorem alike_itemsUpTo {last : Lexeme} (hlast : last = .endOfInput → final = true)
    (e e' : Effect) :
    Alike P before final Free (itemsUpTo last nested e) (itemsUpTo last nested e') := by
  refine .loop (I := Free) (fun e e' l pos pos' _ h _ => ?_) (fun e e' pos pos' _ h => ?_) trivial
  · refine alike_ite (alike_done trivial) ?_
    dsimp only
    split
    · exact .bind (alike_item hnested e e' _ pos pos') fun _ _ _ => alike_again trivial
    · exact alike_mismatch _ _ h
  · dsimp only
    split
    · next hend =>
      rw [hlast hend.symm]
      exact .done (.done trivial)
    · exact stops_mismatch _ _ h

end

theorem alike_blockItems (levels : Nat) (e e' : Effect) (h : P pos pos') :
    Alike P before false Free (blockItems levels pos e) (blockItems levels pos' e') := by
  induction levels generalizing before pos pos' e e' with
  | zero => exact .fail (.mk h trivial)
  | succ levels ih => exact alike_itemsUpTo (fun _ _ e e' h => ih e e' h) (by simp) e e'

/-- Whole sources, whatever effects they are added to. -/
theorem alike_items (e e' : Effect) :
    Alike P before true Free (itemsUpTo .endOfInput (blockItems nestingLimit) e)
      (itemsUpTo .endOfInput (blockItems nestingLimit) e') :=
  alike_itemsUpTo (fun _ _ e e' h => alike_blockItems nestingLimit e e' h) (fun _ => rfl) e e'

end Kfx.Grammar
