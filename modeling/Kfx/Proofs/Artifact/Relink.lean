import Kfx.Artifact.Relink
import Kfx.Proofs.Artifact.Layout

/-!
# Relinking what an artifact kept of an effect

It succeeds exactly when every stored index is in range of its own array, and then every link
carries the name of what it points at.
-/
namespace Kfx

section

variable {ε α β : Type}

theorem bind_eq_ok {x : Except ε α} {f : α → Except ε β} {b : β} :
    x >>= f = .ok b ↔ ∃ a, x = .ok a ∧ f a = .ok b := by
  cases x with
  | error e => exact ⟨fun h => (by cases h), fun ⟨_, h, _⟩ => (by cases h)⟩
  | ok a =>
    constructor
    · intro h
      exact ⟨a, rfl, h⟩
    · rintro ⟨a', ha, h⟩
      cases ha
      exact h

/-- Elements in order, when it is known of each what it becomes and when. -/
theorem mapM_eq_ok {f : α → Except ε β} {p : α → Prop} {g : α → β} {items : List α}
    {results : List β} (step : ∀ a ∈ items, ∀ b, f a = .ok b ↔ p a ∧ b = g a) :
    items.mapM f = .ok results ↔ (∀ a ∈ items, p a) ∧ results = items.map g := by
  induction items generalizing results with
  | nil => simp [pure, Except.pure, eq_comm]
  | cons a items ih =>
    obtain ⟨hstep, hsteps⟩ := List.forall_mem_cons.mp step
    rw [List.mapM_cons, bind_eq_ok]
    constructor
    · rintro ⟨b, hb, hrest⟩
      obtain ⟨bs, hbs, hpure⟩ := bind_eq_ok.mp hrest
      obtain ⟨ha, rfl⟩ := (hstep b).mp hb
      obtain ⟨hitems, rfl⟩ := (ih hsteps).mp hbs
      cases hpure
      exact ⟨List.forall_mem_cons.mpr ⟨ha, hitems⟩, rfl⟩
    · rintro ⟨hall, rfl⟩
      obtain ⟨ha, hitems⟩ := List.forall_mem_cons.mp hall
      refine ⟨g a, (hstep _).mpr ⟨ha, rfl⟩, bind_eq_ok.mpr ?_⟩
      exact ⟨items.map g, (ih hsteps).mpr ⟨hitems, rfl⟩, rfl⟩

theorem forall_fixed_iff {p : α → Prop} {g : α → α} {items : List α} :
    (∀ a ∈ items, p a ∧ g a = a) ↔ (∀ a ∈ items, p a) ∧ items.map g = items := by
  have hfixed : items.map g = items ↔ ∀ a ∈ items, g a = a := by
    have h := List.map_inj_left (l := items) (f := g) (g := id)
    rwa [List.map_id] at h
  rw [hfixed]
  exact ⟨fun h => ⟨fun a ha => (h a ha).1, fun a ha => (h a ha).2⟩,
    fun h a ha => ⟨h.1 a ha, h.2 a ha⟩⟩

theorem forM_eq_ok {f : α → Except ε Unit} {items : List α} :
    items.forM f = .ok () ↔ ∀ a ∈ items, f a = .ok () := by
  induction items with
  | nil => simp [pure, Except.pure]
  | cons a items ih =>
    have hcons : (a :: items).forM f = f a >>= fun _ => items.forM f := rfl
    rw [hcons, bind_eq_ok, List.forall_mem_cons, ← ih]
    constructor
    · rintro ⟨_, ha, hitems⟩
      exact ⟨ha, hitems⟩
    · rintro ⟨ha, hitems⟩
      exact ⟨(), ha, hitems⟩

end

def Handle.InRange {α : Type} (items : List α) (h : Handle) : Prop :=
  h.toNat < items.length

theorem Handle.inRange_iff {α : Type} {items : List α} {h : Handle} :
    h.InRange items ↔ ∃ a, h.get? items = some a := by
  rw [Handle.InRange, Handle.get?, ← Option.isSome_iff_exists]
  simp

/-- The target of the link, if it has one, is in the array. -/
def Link.InRange {α : Type} (items : List α) (l : Link) : Prop :=
  ∀ h ∈ l.target, Handle.InRange items h

structure Pass.TargetsInRange (e : Effect) (p : Pass) : Prop where
  vertexLayout : ∀ l ∈ p.vertexLayout, l.InRange e.vertexLayouts
  resources : ∀ l ∈ p.resources, l.InRange e.localResources
  constantBuffer : ∀ l ∈ p.constantBuffer, l.InRange e.constantBuffers
  renderState : ∀ l ∈ p.renderState, l.InRange e.renderStates
  stages : ∀ s ∈ p.stages, s.fragment.InRange e.codeFragments

def Effect.TargetsInRange (e : Effect) : Prop :=
  ∀ p ∈ e.passes, p.TargetsInRange e

/-- The buffer of a binding is in the array for its kind; a sampler has no array and no buffer. -/
def ResourceBinding.BufferInRange (e : Effect) (b : ResourceBinding) : Prop :=
  ∀ h ∈ b.buffer, ∃ buffers, e.buffersFor b.kind = some buffers ∧ Handle.InRange buffers h

def Effect.BuffersInRange (e : Effect) : Prop :=
  ∀ block ∈ e.localResources ++ e.globalResources, ∀ b ∈ block.bindings, b.BufferInRange e

/-- The link under the name of its target, and under no name without one. -/
def Link.renamed {α : Type} [Named α] (items : List α) (l : Link) : Link :=
  { l with name := ((l.target.bind fun h => h.get? items).map Named.name).getD "" }

/-- A reference of a pass; it is dropped when it has no target. -/
def normalLink {α : Type} [Named α] (items : List α) (l : Option Link) : Option Link :=
  (l.filter fun l => l.target.isSome).map (Link.renamed items)

def Stage.normalise (e : Effect) (s : Stage) : Stage :=
  { s with fragment := s.fragment.renamed e.codeFragments }

def Pass.normalise (e : Effect) (p : Pass) : Pass :=
  { p with
    vertexLayout := normalLink e.vertexLayouts p.vertexLayout
    resources := normalLink e.localResources p.resources
    constantBuffer := normalLink e.constantBuffers p.constantBuffer
    renderState := normalLink e.renderStates p.renderState
    stages := p.stages.map (Stage.normalise e) }

/-- The effect an artifact stands for: links say by name what they point at. -/
def Effect.normalise (e : Effect) : Effect :=
  { e with passes := e.passes.map (Pass.normalise e) }

theorem storedLink_normalLink {α : Type} [Named α] (items : List α) (l : Option Link) :
    storedLink (normalLink items l) = storedLink l := by
  cases l with
  | none => rfl
  | some l => cases ht : l.target <;> simp [storedLink, normalLink, Link.renamed, Option.filter, ht]

/-- Normalising changes nothing that an artifact keeps. -/
theorem Effect.stored_normalise (e : Effect) : e.normalise.stored = e.stored := by
  have hstage : ∀ s : Stage, (s.normalise e).stored = s.stored := fun _ => rfl
  have hpass : ∀ p : Pass, (p.normalise e).stored = p.stored := by
    intro p
    simp [Pass.stored, Pass.normalise, storedLink_normalLink, hstage]
  simp [Effect.stored, Effect.normalise, hpass]

/-- The link has a target, and the target's name. -/
def Link.Names {α : Type} [Named α] (items : List α) (l : Link) : Prop :=
  ∃ h a, l.target = some h ∧ h.get? items = some a ∧ Named.name a = l.name

/-- Every reference of the pass has a target and its name; a stage may have neither. -/
structure Pass.Normal (e : Effect) (p : Pass) : Prop where
  vertexLayout : ∀ l ∈ p.vertexLayout, l.Names e.vertexLayouts
  resources : ∀ l ∈ p.resources, l.Names e.localResources
  constantBuffer : ∀ l ∈ p.constantBuffer, l.Names e.constantBuffers
  renderState : ∀ l ∈ p.renderState, l.Names e.renderStates
  stages : ∀ s ∈ p.stages, s.fragment.Names e.codeFragments ∨ s.fragment = ⟨"", none⟩

/-- The effects that survive being stored. -/
structure Effect.Normal (e : Effect) : Prop where
  masks : e.MasksKnown
  buffers : e.BuffersInRange
  passes : ∀ p ∈ e.passes, p.Normal e

section

variable {α : Type} [Named α] {items : List α} {l : Link}

/-- A link with a target in range is named exactly when renaming leaves it alone. -/
theorem Link.names_iff :
    l.Names items ↔ l.target.isSome ∧ l.InRange items ∧ l.renamed items = l := by
  obtain ⟨name, target⟩ := l
  constructor
  · rintro ⟨h, a, htarget, hget, hname⟩
    cases htarget
    refine ⟨rfl, ?_, by simpa [Link.renamed, hget] using hname⟩
    intro h' hh'
    cases hh'
    exact Handle.inRange_iff.mpr ⟨a, hget⟩
  · rintro ⟨hsome, hrange, hrenamed⟩
    obtain ⟨h, htarget⟩ := Option.isSome_iff_exists.mp hsome
    obtain ⟨a, hget⟩ := Handle.inRange_iff.mp (hrange h htarget)
    cases htarget
    exact ⟨h, a, rfl, hget, by simpa [Link.renamed, hget] using hrenamed⟩

theorem forall_names_iff {l : Option Link} : (∀ k ∈ l, k.Names items) ↔
    (∀ k ∈ l, k.InRange items) ∧ normalLink items l = l := by
  cases l with
  | none => simp [normalLink]
  | some k =>
    have hsome : ∀ p : Link → Prop, (∀ k' ∈ some k, p k') ↔ p k := by simp
    rw [hsome, hsome, Link.names_iff]
    cases ht : k.target <;> simp [normalLink, Option.filter, ht]

/-- The same for the code of a stage, which may be missing. -/
theorem names_or_missing_iff : l.Names items ∨ l = ⟨"", none⟩ ↔
    l.InRange items ∧ l.renamed items = l := by
  rw [Link.names_iff]
  obtain ⟨name, target⟩ := l
  cases target with
  | none => simp [Link.InRange, Link.renamed, eq_comm]
  | some h => simp

end

theorem Stage.normal_iff {e : Effect} {s : Stage} :
    s.fragment.Names e.codeFragments ∨ s.fragment = ⟨"", none⟩ ↔
      s.fragment.InRange e.codeFragments ∧ s.normalise e = s := by
  rw [names_or_missing_iff]
  cases s
  simp [Stage.normalise]

/-- A pass is normal just where its targets are there and normalising it changes nothing. -/
theorem Pass.normal_iff {e : Effect} {p : Pass} :
    p.Normal e ↔ p.TargetsInRange e ∧ p.normalise e = p := by
  constructor
  · rintro ⟨h1, h2, h3, h4, h5⟩
    obtain ⟨h1, h1'⟩ := forall_names_iff.mp h1
    obtain ⟨h2, h2'⟩ := forall_names_iff.mp h2
    obtain ⟨h3, h3'⟩ := forall_names_iff.mp h3
    obtain ⟨h4, h4'⟩ := forall_names_iff.mp h4
    obtain ⟨h5, h5'⟩ := forall_fixed_iff.mp fun s hs => Stage.normal_iff.mp (h5 s hs)
    exact ⟨⟨h1, h2, h3, h4, h5⟩, by rw [Pass.normalise, h1', h2', h3', h4', h5']⟩
  · rintro ⟨⟨h1, h2, h3, h4, h5⟩, hsame⟩
    cases p
    simp only [Pass.normalise, Pass.mk.injEq, true_and] at hsame
    obtain ⟨h1', h2', h3', h4', h5'⟩ := hsame
    exact ⟨forall_names_iff.mpr ⟨h1, h1'⟩, forall_names_iff.mpr ⟨h2, h2'⟩,
      forall_names_iff.mpr ⟨h3, h3'⟩, forall_names_iff.mpr ⟨h4, h4'⟩,
      fun s hs => Stage.normal_iff.mpr (forall_fixed_iff.mpr ⟨h5, h5'⟩ s hs)⟩

/-- An effect is normal when an artifact could stand for it and normalising leaves it alone. -/
theorem Effect.normal_iff {e : Effect} : e.Normal ↔
    (e.MasksKnown ∧ e.BuffersInRange ∧ e.TargetsInRange) ∧ e.normalise = e := by
  have hsame : e.normalise = e ↔ e.passes.map (Pass.normalise e) = e.passes := by
    constructor
    · intro h
      exact congrArg Effect.passes h
    · intro h
      rw [Effect.normalise, h]
  rw [hsame]
  constructor
  · rintro ⟨hmasks, hbuffers, hpasses⟩
    obtain ⟨htargets, hfixed⟩ := forall_fixed_iff.mp fun p hp => Pass.normal_iff.mp (hpasses p hp)
    exact ⟨⟨hmasks, hbuffers, htargets⟩, hfixed⟩
  · rintro ⟨⟨hmasks, hbuffers, htargets⟩, hfixed⟩
    exact ⟨hmasks, hbuffers,
      fun p hp => Pass.normal_iff.mpr (forall_fixed_iff.mpr ⟨htargets, hfixed⟩ p hp)⟩

namespace Artifact

section

variable {α : Type} {what : String} {items : List α}

theorem checked_eq_ok {h : Handle} {a : α} :
    checked what items h = .ok a ↔ h.get? items = some a := by
  unfold checked
  cases h.get? items <;> simp

variable [Named α]

theorem named_stored_eq_ok {l l' : Link} :
    named what items ⟨"", l.target⟩ = .ok l' ↔ l.InRange items ∧ l' = l.renamed items := by
  obtain ⟨name, target⟩ := l
  cases target with
  | none => simp [named, Link.InRange, Link.renamed, eq_comm]
  | some h =>
    simp only [named, bind_eq_ok, checked_eq_ok]
    have hrange : Link.InRange items ⟨name, some h⟩ ↔ ∃ a, h.get? items = some a := by
      simp [Link.InRange, Handle.inRange_iff]
    rw [hrange]
    constructor
    · rintro ⟨a, ha, hpure⟩
      cases hpure
      exact ⟨⟨a, ha⟩, by simp [Link.renamed, ha]⟩
    · rintro ⟨⟨a, ha⟩, rfl⟩
      exact ⟨a, ha, by simp [Link.renamed, ha, pure, Except.pure]⟩

theorem namedOptional_stored_eq_ok {l l' : Option Link} :
    namedOptional what items (storedLink l) = .ok l' ↔
      (∀ k ∈ l, k.InRange items) ∧ l' = normalLink items l := by
  cases l with
  | none => simp [namedOptional, storedLink, normalLink, eq_comm]
  | some l =>
    have hrange : (∀ k ∈ some l, k.InRange items) ↔ l.InRange items := by simp
    rw [hrange]
    cases ht : l.target with
    | none =>
      simp [namedOptional, storedLink, normalLink, Link.InRange, Option.filter, ht, eq_comm]
    | some h =>
      have hstored : storedLink (some l) = some ⟨"", l.target⟩ := by simp [storedLink, ht]
      have hnormal : normalLink items (some l) = some (l.renamed items) := by
        simp [normalLink, Option.filter, ht]
      rw [hstored, hnormal, namedOptional, map_eq_pure_bind, bind_eq_ok]
      constructor
      · rintro ⟨k, hk, hpure⟩
        obtain ⟨hin, rfl⟩ := named_stored_eq_ok.mp hk
        cases hpure
        exact ⟨hin, rfl⟩
      · rintro ⟨hin, rfl⟩
        exact ⟨l.renamed items, named_stored_eq_ok.mpr ⟨hin, rfl⟩, rfl⟩

end

theorem checkBinding_eq_ok {e : Effect} {b : ResourceBinding} :
    checkBinding e b = .ok () ↔ b.BufferInRange e := by
  unfold checkBinding ResourceBinding.BufferInRange
  cases hb : b.buffer with
  | none => simp
  | some h =>
    simp only [bind_eq_ok, checked_eq_ok, Option.mem_some_iff, forall_eq',
      ← Handle.inRange_iff, pure, Except.pure, and_true]
    cases e.buffersFor b.kind with
    | none => simp [Handle.InRange]
    | some buffers => simp

theorem relinkStage_stored_eq_ok {e : Effect} {s s' : Stage} :
    relinkStage e s.stored = .ok s' ↔
      s.fragment.InRange e.codeFragments ∧ s' = s.normalise e := by
  unfold relinkStage
  rw [bind_eq_ok]
  constructor
  · rintro ⟨l, hl, hpure⟩
    obtain ⟨hin, rfl⟩ := named_stored_eq_ok.mp hl
    cases hpure
    exact ⟨hin, rfl⟩
  · rintro ⟨hin, rfl⟩
    exact ⟨s.fragment.renamed e.codeFragments, named_stored_eq_ok.mpr ⟨hin, rfl⟩, rfl⟩

/-- Filling in the links of a stored pass gives its normal form, if every target is there. -/
theorem relinkPass_stored_eq_ok {e : Effect} {p p' : Pass} :
    relinkPass e p.stored = .ok p' ↔ p.TargetsInRange e ∧ p' = p.normalise e := by
  have hstages : ∀ stages, p.stored.stages.mapM (relinkStage e) = .ok stages ↔
      (∀ s ∈ p.stages, s.fragment.InRange e.codeFragments) ∧
        stages = p.stages.map (Stage.normalise e) := by
    intro stages
    rw [Pass.stored, List.mapM_map]
    exact mapM_eq_ok fun s _ s' => relinkStage_stored_eq_ok
  unfold relinkPass
  constructor
  · intro h
    obtain ⟨_, hlayout, h⟩ := bind_eq_ok.mp h
    obtain ⟨_, hresources, h⟩ := bind_eq_ok.mp h
    obtain ⟨_, hbuffer, h⟩ := bind_eq_ok.mp h
    obtain ⟨_, hstate, h⟩ := bind_eq_ok.mp h
    obtain ⟨_, hmany, hpure⟩ := bind_eq_ok.mp h
    obtain ⟨h1, rfl⟩ := namedOptional_stored_eq_ok.mp hlayout
    obtain ⟨h2, rfl⟩ := namedOptional_stored_eq_ok.mp hresources
    obtain ⟨h3, rfl⟩ := namedOptional_stored_eq_ok.mp hbuffer
    obtain ⟨h4, rfl⟩ := namedOptional_stored_eq_ok.mp hstate
    obtain ⟨h5, rfl⟩ := (hstages _).mp hmany
    cases hpure
    exact ⟨⟨h1, h2, h3, h4, h5⟩, rfl⟩
  · rintro ⟨⟨h1, h2, h3, h4, h5⟩, rfl⟩
    refine bind_eq_ok.mpr ⟨_, namedOptional_stored_eq_ok.mpr ⟨h1, rfl⟩, ?_⟩
    refine bind_eq_ok.mpr ⟨_, namedOptional_stored_eq_ok.mpr ⟨h2, rfl⟩, ?_⟩
    refine bind_eq_ok.mpr ⟨_, namedOptional_stored_eq_ok.mpr ⟨h3, rfl⟩, ?_⟩
    refine bind_eq_ok.mpr ⟨_, namedOptional_stored_eq_ok.mpr ⟨h4, rfl⟩, ?_⟩
    exact bind_eq_ok.mpr ⟨_, (hstages _).mpr ⟨h5, rfl⟩, rfl⟩

/-- Relinking decides whether the stored indices are in range, and normalises. -/
theorem relink_stored_eq_ok {e e' : Effect} :
    relink e.stored = .ok e' ↔
      e.BuffersInRange ∧ e.TargetsInRange ∧ e' = e.normalise := by
  have hbindings : ((e.localResources ++ e.globalResources).flatMap ResourceBlock.bindings).forM
      (checkBinding e.stored) = .ok () ↔ e.BuffersInRange := by
    rw [forM_eq_ok]
    simp only [List.mem_flatMap, checkBinding_eq_ok]
    exact ⟨fun h block hblock b hb => h b ⟨block, hblock, hb⟩,
      fun h b ⟨block, hblock, hb⟩ => h block hblock b hb⟩
  have hpasses : ∀ passes, e.stored.passes.mapM (relinkPass e.stored) = .ok passes ↔
      e.TargetsInRange ∧ passes = e.passes.map (Pass.normalise e) := by
    intro passes
    rw [Effect.stored, List.mapM_map]
    exact mapM_eq_ok fun p _ p' => relinkPass_stored_eq_ok (e := e)
  unfold relink
  constructor
  · intro h
    obtain ⟨_, hfirst, h⟩ := bind_eq_ok.mp h
    obtain ⟨_, hsecond, hpure⟩ := bind_eq_ok.mp h
    obtain ⟨htargets, rfl⟩ := (hpasses _).mp hsecond
    cases hpure
    exact ⟨hbindings.mp hfirst, htargets, rfl⟩
  · rintro ⟨hbuffers, htargets, rfl⟩
    refine bind_eq_ok.mpr ⟨(), hbindings.mpr hbuffers, ?_⟩
    exact bind_eq_ok.mpr ⟨_, (hpasses _).mpr ⟨htargets, rfl⟩, rfl⟩

end Artifact

end Kfx
