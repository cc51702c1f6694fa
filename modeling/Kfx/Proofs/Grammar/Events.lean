import Kfx.Proofs.Grammar.Alike
import Kfx.Proofs.Grammar.Pieces

/-!
# What happens while a parser runs

Which tokens and blocks are asked for, from where, and which rounds of a loop lead to another one.
`trace` lists these events in order, up to a failure too. Of parsers that are alike to themselves
they are sound: nothing is asked for behind the end, and each round gets on.
-/
namespace Kfx.Grammar

/-- Something that happens to a source of tokens. -/
inductive Event (S : Type)
  /-- A token is asked for. -/
  | next (s : S)
  /-- A block of raw text is asked for. -/
  | capture (s : S)
  /-- A token was looked at and not taken. What was to be read before that, and what is left. -/
  | putBack (before behind : S)
  /-- A round of a loop leads to another one. What was to be read before the round and behind it. -/
  | round (before behind : S)
  deriving DecidableEq

namespace Parser

variable {S : Type} [TokenSource S] {α β σ τ : Type}

/-- The events of a loop whose rounds have the events `body`. -/
def loopTrace (round : σ → Token → Parser (σ ⊕ τ)) (body : σ → Token → S → List (Event S))
    (state : σ) (s : S) : List (Event S) :=
  .next s ::
    match hnext : TokenSource.next s with
    | (.error _, _) => []
    | (.ok t, s₁) =>
      body state t s₁ ++
        match hround : (round state t).run s₁ with
        | .ok (.inl state', s₂) =>
          have := Nat.lt_of_le_of_lt (run_size_le hround) (TokenSource.next_size_lt hnext)
          .round s s₂ :: loopTrace round body state' s₂
        | _ => []
termination_by TokenSource.size s

/-- What happens, one thing after another, while a parser runs on `s`. -/
def trace {α : Type} : Parser α → S → List (Event S)
  | .pure _, _ => []
  | .bind p f, s =>
    p.trace s ++
      match p.run s with
      | .ok (a, s') => (f a).trace s'
      | .error _ => []
  | .fail _, _ => []
  | .say _ _, _ => []
  | .token, s => [.next s]
  | .capture, s => [.capture s]
  | .eat symbol, s =>
    .next s ::
      match (eat symbol).run s with
      | .ok (false, s') => [.putBack s s']
      | _ => []
  | .loop round state, s => loopTrace round (fun state t => (round state t).trace) state s

variable {p : Parser α} {f : α → Parser β} {a : α} {s s₁ s₂ : S} {t : Token}

theorem trace_bind_of_ok (h : p.run s = .ok (a, s₁)) :
    (Parser.bind p f).trace s = p.trace s ++ (f a).trace s₁ := by
  rw [trace, h]

theorem trace_bind_of_error {e : ParseError} (h : p.run s = .error e) :
    (Parser.bind p f).trace s = p.trace s := by
  rw [trace, h, List.append_nil]

section

variable {round : σ → Token → Parser (σ ⊕ τ)} {state state' : σ}

theorem trace_loop_of_error {e : LexError} (h : TokenSource.next s = (.error e, s₁)) :
    (loop round state).trace s = [.next s] := by
  rw [trace, loopTrace]
  split
  · rfl
  · next hnext => cases h.symm.trans hnext

/-- Every round that leads to another one is among the events. -/
theorem trace_loop_of_again (hnext : TokenSource.next s = (.ok t, s₁))
    (hround : (round state t).run s₁ = .ok (.inl state', s₂)) :
    (loop round state).trace s =
      .next s :: ((round state t).trace s₁ ++ .round s s₂ :: (loop round state').trace s₂) := by
  rw [trace, loopTrace, trace]
  split
  · next h => cases hnext.symm.trans h
  · next h =>
    cases hnext.symm.trans h
    split
    · next h =>
      cases hround.symm.trans h
      rfl
    · next h => exact absurd hround (h _ _)

theorem trace_loop_of_stop (hnext : TokenSource.next s = (.ok t, s₁))
    (hround : ∀ state' s₂, (round state t).run s₁ ≠ .ok (.inl state', s₂)) :
    (loop round state).trace s = .next s :: (round state t).trace s₁ := by
  rw [trace, loopTrace]
  split
  · next h => cases hnext.symm.trans h
  · next h =>
    cases hnext.symm.trans h
    split
    · next h => exact absurd h (hround _ _)
    · rw [List.append_nil]

end

end Parser

open Kfx.Grammar.Parser

section Soundness

variable {S : Type} [TokenSource S] {Open : S → Prop} {α β σ τ : Type}

/-- The word `GLSL` and a name stand before `s`. -/
def BehindCodeName (Open : S → Prop) (s : S) : Prop :=
  ∃ s₀ s₁ l name, Open s₀ ∧ Gives s₀ (.word "GLSL") s₁ ∧ Gives s₁ (.token l) s ∧ IsName l name

/-- Nothing is asked for behind the end, raw text only for a code fragment; what is put back leaves
all as it was, and a round that leads to another one has read something. -/
def Event.SoundFor (Open : S → Prop) : Event S → Prop
  | .next s => Open s
  | .capture s => Open s ∧ BehindCodeName Open s
  | .putBack before behind => behind = before
  | .round before behind =>
    Open before ∧ Open behind ∧ TokenSource.size behind < TokenSource.size before

/-- What is read leaves a source open, unless it is the end of input. -/
structure StaysOpen (Open : S → Prop) : Prop where
  next : ∀ {s t s'}, Open s → TokenSource.next s = (.ok t, s') → t.lexeme ≠ .endOfInput → Open s'
  capture : ∀ {s b s'}, Open s → TokenSource.capture s = (.ok b, s') → Open s'

/-- A call among the events fails with an error. -/
def FailsIn (e : LexError) (events : List (Event S)) : Prop :=
  ∃ s, (.next s ∈ events ∧ (TokenSource.next s).1 = .error e) ∨
    (.capture s ∈ events ∧ (TokenSource.capture s).1 = .error e)

theorem FailsIn.mono {e : LexError} {events more : List (Event S)} (h : FailsIn e events)
    (hsub : events ⊆ more) : FailsIn e more := by
  obtain ⟨s, ⟨hmem, herror⟩ | ⟨hmem, herror⟩⟩ := h
  · exact ⟨s, .inl ⟨hsub hmem, herror⟩⟩
  · exact ⟨s, .inr ⟨hsub hmem, herror⟩⟩

/-- A run is sound: its events are, it leaves an open source unless it is `final`, and an error of
the lexer is one of a call that was made. -/
structure SoundRun (Open : S → Prop) (final : Bool) (events : List (Event S))
    (result : Except ParseError (α × S)) : Prop where
  sound : ∀ event ∈ events, event.SoundFor Open
  rest : final = false → ∀ x, result = .ok x → Open x.2
  error : ∀ e, result = .error (.lex e) → FailsIn e events

namespace SoundRun

variable {final final' : Bool} {front events : List (Event S)} {result : Except ParseError (α × S)}

theorem append (hfront : ∀ event ∈ front, event.SoundFor Open)
    (h : SoundRun Open final events result) : SoundRun Open final (front ++ events) result where
  sound event hevent := by
    rcases List.mem_append.mp hevent with hevent | hevent
    · exact hfront event hevent
    · exact h.sound event hevent
  rest := h.rest
  error e he := (h.error e he).mono (List.subset_append_right _ _)

theorem cons {event : Event S} (hevent : event.SoundFor Open)
    (h : SoundRun Open final events result) : SoundRun Open final (event :: events) result := by
  have hfront : ∀ event' ∈ [event], event'.SoundFor Open := by simpa using hevent
  exact h.append hfront

/-- Nothing follows an error. -/
theorem of_error {e : ParseError} (h : SoundRun Open final' events (.error e : Except _ (α × S))) :
    SoundRun Open final events (.error e : Except _ (β × S)) where
  sound := h.sound
  rest _ _ hok := by cases hok
  error e' he' := h.error e' (by cases he'; rfl)

theorem of_ok {x : α × S} (hevents : ∀ event ∈ events, event.SoundFor Open)
    (hx : final = false → Open x.2) : SoundRun Open final events (.ok x) where
  sound := hevents
  rest hfinal y hy := by
    cases hy
    exact hx hfinal
  error _ he := by cases he

theorem toFinal (h : SoundRun Open false events result) : SoundRun Open final events result :=
  ⟨h.sound, fun _ => h.rest rfl, h.error⟩

end SoundRun

/-- A call that was made and failed. -/
theorem soundRun_next_error {final : Bool} {s s' : S} {e : LexError} (hs : Open s)
    (h : TokenSource.next s = (.error e, s')) :
    SoundRun Open final [.next s] (.error (.lex e) : Except _ (α × S)) where
  sound := by simpa [Event.SoundFor] using hs
  rest _ _ hok := by cases hok
  error e' he' := by
    cases he'
    exact ⟨s, .inl ⟨by simp, by rw [h]⟩⟩

/-- All that a parser does from `s` is sound. -/
def SoundFrom (Open : S → Prop) (final : Bool) (p : Parser α) (s : S) : Prop :=
  SoundRun Open final (p.trace s) (p.run s)

variable {final final' : Bool} {p : Parser α} {f : α → Parser β} {s : S}

theorem SoundFrom.bind (hp : SoundFrom Open final' p s)
    (hf : ∀ a s₁, p.run s = .ok (a, s₁) → SoundFrom Open final (f a) s₁) :
    SoundFrom Open final (.bind p f) s := by
  unfold SoundFrom at hp ⊢
  cases hrun : p.run s with
  | error e =>
    rw [hrun] at hp
    rw [trace_bind_of_error hrun, run_sequence, hrun]
    exact hp.of_error
  | ok x =>
    rw [trace_bind_of_ok hrun, run_sequence, hrun]
    exact (hf x.1 x.2 hrun).append hp.sound

theorem soundFrom_pure {a : α} (hs : final = false → Open s) :
    SoundFrom Open final (.pure a) s :=
  .of_ok (by simp [trace]) hs

theorem soundFrom_fail {e : ParseError} (he : e.OfGrammar) :
    SoundFrom Open final (.fail e : Parser α) s where
  sound := by simp [trace]
  rest _ _ hok := by cases hok
  error _ he' := by
    cases he'
    exact he.elim

/-- A token is asked for where there is one. At the end there is one too, the last. -/
theorem soundFrom_token (hs : Open s) : SoundFrom Open true token s := by
  unfold SoundFrom
  cases hnext : TokenSource.next s with
  | mk answer s' =>
    cases answer with
    | ok t =>
      rw [run_token_of_ok hnext]
      exact .of_ok (by simpa [trace, Event.SoundFor] using hs) (by simp)
    | error e =>
      rw [run_token_of_error hnext]
      exact soundRun_next_error hs hnext

theorem soundFrom_capture (hopen : StaysOpen Open) (hs : Open s) (hbehind : BehindCodeName Open s) :
    SoundFrom Open final capture s := by
  have hevents : ∀ event ∈ capture.trace s, event.SoundFor Open := by
    simpa [trace, Event.SoundFor] using ⟨hs, hbehind⟩
  unfold SoundFrom
  cases hcapture : TokenSource.capture s with
  | mk answer s' =>
    cases answer with
    | ok b =>
      rw [run_capture_of_ok hcapture]
      exact .of_ok hevents fun _ => hopen.capture hs hcapture
    | error e =>
      rw [run_capture_of_error hcapture]
      refine ⟨hevents, fun _ _ hok => (by cases hok), fun e' he' => ?_⟩
      cases he'
      exact ⟨s, .inr ⟨by simp [trace], by rw [hcapture]⟩⟩

/-- A token that is not eaten is put back where it was. -/
theorem soundFrom_eat (hopen : StaysOpen Open) (y : Symbol) (hs : Open s) :
    SoundFrom Open final (eat y) s := by
  unfold SoundFrom
  rw [trace]
  cases hnext : TokenSource.next s with
  | mk answer s' =>
    cases answer with
    | error e =>
      rw [run_eat_of_error y hnext]
      exact soundRun_next_error hs hnext
    | ok t =>
      rw [run_eat_of_ok y hnext]
      by_cases ht : t.lexeme = .symbol y
      · rw [if_pos ht]
        refine .of_ok (by simpa [Event.SoundFor] using hs) fun _ => ?_
        exact hopen.next hs hnext (by simp [ht])
      · rw [if_neg ht]
        exact .of_ok (by simpa [Event.SoundFor] using hs) fun _ => hs

/-- A loop is sound when its rounds are, and rounds that lead to another one leave an open
source. -/
theorem soundFrom_loop {round : σ → Token → Parser (σ ⊕ τ)} {J : σ → Prop}
    (turn : ∀ state t s s₁, J state → Open s → TokenSource.next s = (.ok t, s₁) →
      SoundFrom Open final (round state t) s₁ ∧
        ∀ state' s₂, (round state t).run s₁ = .ok (.inl state', s₂) → J state' ∧ Open s₂)
    {state : σ} (hstate : J state) (hs : Open s) : SoundFrom Open final (loop round state) s := by
  -- On what is left to read: each round takes a token off it.
  induction hsize : TokenSource.size s using Nat.strongRecOn generalizing s state with
  | ind n ih =>
    unfold SoundFrom
    cases hnext : TokenSource.next s with
    | mk answer s₁ =>
      cases answer with
      | error e =>
        rw [trace_loop_of_error hnext, run_loop_of_error round state hnext]
        exact soundRun_next_error hs hnext
      | ok t =>
        obtain ⟨hround, hleads⟩ := turn state t s s₁ hstate hs hnext
        unfold SoundFrom at hround
        rw [run_loop_of_ok round state hnext]
        cases hrun : (round state t).run s₁ with
        | error e =>
          rw [hrun] at hround
          rw [trace_loop_of_stop hnext (by simp [hrun])]
          exact hround.of_error.cons hs
        | ok x =>
          obtain ⟨r, s₂⟩ := x
          rw [hrun] at hround
          cases r with
          | inr result =>
            rw [trace_loop_of_stop hnext (by simp [hrun])]
            refine SoundRun.cons hs (.of_ok hround.sound fun hfinal => ?_)
            exact hround.rest hfinal _ rfl
          | inl state' =>
            obtain ⟨hstate', hs₂⟩ := hleads state' s₂ hrun
            have hlt : TokenSource.size s₂ < TokenSource.size s :=
              Nat.lt_of_le_of_lt (run_size_le hrun) (TokenSource.next_size_lt hnext)
            rw [trace_loop_of_again hnext hrun]
            have hrest := ih _ (hsize ▸ hlt) hstate' hs₂ rfl
            have hgets : (Event.round s s₂).SoundFor Open := ⟨hs, hs₂, hlt⟩
            exact ((hrest.cons hgets).append hround.sound).cons hs

/-- A source of tokens answers itself. -/
theorem comparable_self : Comparable (fun _ _ => True) (fun _ _ => True)
    (fun s s' : S => s = s') where
  next := by
    rintro s _ rfl
    rcases TokenSource.next s with ⟨e | t, s'⟩
    · exact .error trivial
    · exact .ok (.mk trivial) rfl
  capture := by
    rintro s _ rfl
    rcases TokenSource.capture s with ⟨e | b, s'⟩
    · exact .error trivial
    · exact .ok rfl rfl

variable {R : α → α → Prop} {q : Parser α}

/-- What a parser gives is like something that the other gives. -/
theorem Alike.exists_like {before : Option Lexeme} (h : Alike (fun _ _ => True) before final R p q)
    {a : α} {s' : S} (hrun : p.run s = .ok (a, s')) : ∃ b, R a b := by
  have hends := h.endsAlike comparable_self (s := s) rfl
  rw [hrun] at hends
  generalize q.run s = y at hends
  cases hends with
  | ok h _ => exact ⟨_, h⟩

theorem Stops.soundFrom {P : Pos → Pos → Prop} (h : Stops P final R p q) :
    SoundFrom Open final p s := by
  induction h with
  | fail h =>
    obtain ⟨_, he⟩ := h
    exact soundFrom_fail he
  | bind first ih =>
    obtain ⟨e, _, _, hfail⟩ := (first.cases (S := S) (T := S)).resolve_right (by simp)
    refine ih.bind fun a s₁ hok => ?_
    cases (hfail s s).1.symm.trans hok
  | done h => exact soundFrom_pure (by simp)

/-- The last token before `s`, if there has to be one. -/
def BehindToken (Open : S → Prop) (before : Option Lexeme) (s : S) : Prop :=
  ∀ l, before = some l → ∃ s₀, Open s₀ ∧ Gives s₀ (.token l) s

theorem behindToken_none : BehindToken Open none s :=
  fun _ h => by cases h

/-- A parser that is alike to another one is sound wherever a source is open. -/
theorem Alike.soundFrom (hopen : StaysOpen Open) {before : Option Lexeme}
    (h : Alike (fun _ _ => True) before final R p q) (hs : Open s)
    (hbefore : BehindToken Open before s) : SoundFrom Open final p s := by
  induction h generalizing s with
  | pure h => exact soundFrom_pure fun _ => hs
  | fail h =>
    obtain ⟨_, he⟩ := h
    exact soundFrom_fail he
  | say h => exact SoundRun.of_ok (by simp [trace]) fun _ => hs
  | eat y => exact soundFrom_eat hopen y hs
  | token _ stop ih =>
    refine (soundFrom_token hs).bind fun t s₁ hok => ?_
    have hnext := run_token_eq_ok.mp hok
    obtain ⟨l, pos⟩ := t
    by_cases hl : l = .endOfInput
    · subst hl
      exact (stop pos pos trivial).soundFrom.toFinal
    · refine ih l pos pos trivial hl (hopen.next hs hnext hl) ?_
      rintro _ ⟨⟩
      exact ⟨s, hs, .token hnext⟩
  | code _ _ ihname ihrest =>
    obtain ⟨s₀, hs₀, hcode⟩ := hbefore _ rfl
    have hname := ihname hs behindToken_none
    refine hname.bind fun name s₁ hok => ?_
    have hs₁ := hname.rest rfl _ hok
    obtain ⟨l, hl', hl⟩ := run_expectName_eq_ok.mp hok
    have hcapture : SoundFrom Open false capture s₁ :=
      soundFrom_capture hopen hs₁ ⟨s₀, s, l, name, hs₀, hcode, hl, hl'⟩
    refine hcapture.bind fun b s₂ hok => ?_
    exact ihrest name b.text b.pos b.pos (hcapture.rest rfl _ hok) behindToken_none
  | bind first _ ihfirst ihrest =>
    refine (ihfirst hs hbefore).bind fun a s₁ hok => ?_
    obtain ⟨b, hab⟩ := first.exists_like hok
    exact ihrest a b hab ((ihfirst hs hbefore).rest rfl _ hok) behindToken_none
  | @loop _ _ _ _ I _ _ _ go stop _ _ start ih =>
    refine soundFrom_loop (J := fun a => ∃ b, I a b) ?_ ⟨_, start⟩ hs
    rintro a ⟨l, pos⟩ s s₁ ⟨b, hab⟩ hs hnext
    by_cases hl : l = .endOfInput
    · subst hl
      have hstop := stop a b pos pos hab trivial
      refine ⟨hstop.soundFrom, fun a' s₂ hok => ?_⟩
      rcases hstop.cases (S := S) (T := S) with ⟨e, _, _, hfail⟩ | ⟨_, r, r', hround, hr, _⟩
      · cases (hfail s₁ s₁).1.symm.trans hok
      · rw [hr] at hok
        cases hok
        cases hround with
        | again h => exact h.elim
    · have hround := go a b l pos pos hab trivial hl
      have hsound := ih a b l pos pos hab trivial hl (hopen.next hs hnext hl) (by
        rintro _ ⟨⟩
        exact ⟨s, hs, .token hnext⟩)
      refine ⟨hsound.toFinal, fun a' s₂ hok => ⟨?_, hsound.rest rfl _ hok⟩⟩
      obtain ⟨_, hlike⟩ := hround.exists_like hok
      cases hlike with
      | again h => exact ⟨_, h⟩
  | sayLeft _ ih =>
    have hsay : ∀ level text, SoundFrom Open false (Parser.say level text) s :=
      fun _ _ => SoundRun.of_ok (by simp [trace]) fun _ => hs
    refine (hsay _ _).bind fun _ _ hok => ?_
    cases hok
    exact ih hs hbefore
  | sayRight _ ih => exact ih hs hbefore

end Soundness

end Kfx.Grammar
