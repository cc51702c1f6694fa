import Kfx.Proofs.Resolution.Requirements

/-!
# When resolution succeeds

The conditions are about the effect itself and not about the way resolution takes through it.
-/
namespace Kfx

/-- Every reference of a pass has a definition. Without local blocks, resources need none. -/
structure Pass.Resolvable (e : Effect) (p : Pass) : Prop where
  vertexLayout : ∀ l ∈ p.vertexLayout, l.name ∈ e.vertexLayouts.map Named.name
  resources : ∀ l ∈ p.resources,
    e.localResources = [] ∨ l.name ∈ e.localResources.map Named.name
  constantBuffer : ∀ l ∈ p.constantBuffer, l.name ∈ e.constantBuffers.map Named.name
  renderState : ∀ l ∈ p.renderState, l.name ∈ e.renderStates.map Named.name
  stages : ∀ s ∈ p.stages, s.fragment.name ∈ e.codeFragments.map Named.name

/-- The first buffer of the name has a size that is a word, and the declared one if one is. -/
def ResourceBinding.Bindable (buffers : List Buffer) (b : ResourceBinding) : Prop :=
  ∃ n x, FirstNamed buffers b.name n x ∧ x.exactSize < UInt32.size ∧
    ∀ declared ∈ b.size, declared.toNat = x.exactSize

structure Effect.Resolvable (e : Effect) : Prop where
  passes : ∀ p ∈ e.passes, p.Resolvable e
  bindings : ∀ block ∈ e.localResources ++ e.globalResources, ∀ b ∈ block.bindings,
    ∀ buffers ∈ e.buffersFor b.kind, b.Bindable buffers

theorem firstViolation_eq_none {reqs : List Requirement} :
    firstViolation reqs = none ↔ ∀ r ∈ reqs, r.violation? = none :=
  List.findSome?_eq_none_iff

theorem Link.violation?_requirement {α : Type} [Named α] {items : List α} {kind scope : String}
    {l : Link} :
    (l.requirement items kind scope).violation? = none ↔ l.name ∈ items.map Named.name := by
  simp [Link.requirement, Requirement.violation?]

theorem ResourceBinding.sizeViolation?_eq_none {b : ResourceBinding} {x : Buffer} :
    b.sizeViolation? x = none ↔
      x.exactSize < UInt32.size ∧ ∀ declared ∈ b.size, declared.toNat = x.exactSize := by
  unfold sizeViolation?
  by_cases hlarge : UInt32.size ≤ x.exactSize
  · rw [if_pos hlarge]
    constructor
    · intro h
      cases h
    · intro h
      omega
  · rw [if_neg hlarge]
    have hsmall : x.exactSize < UInt32.size := by omega
    cases b.size <;> simp [hsmall]

/-- A binding violates nothing just where it can be bound. -/
theorem ResourceBinding.violation?_bound {buffers : List Buffer} {kind scope : String}
    {b : ResourceBinding} :
    (Requirement.bound kind buffers b scope).violation? = none ↔ b.Bindable buffers := by
  rcases firstNamed_or_missing buffers b.name with ⟨i, hfirst, _, hget⟩ | ⟨hmissing, _, hget⟩
  · rw [Requirement.violation?, hget]
    dsimp only
    rw [sizeViolation?_eq_none]
    constructor
    · intro h
      exact ⟨i, buffers[i], hfirst, h⟩
    · rintro ⟨m, y, hfirst', h⟩
      obtain ⟨_, rfl⟩ := hfirst.unique hfirst'
      exact h
  · rw [Requirement.violation?, hget]
    constructor
    · intro h
      cases h
    · rintro ⟨n, x, hfirst, _⟩
      exact absurd hfirst.mem hmissing

/-- A pass can be resolved just where none of its requirements is violated. -/
theorem Pass.resolvable_iff {e : Effect} {p : Pass} :
    p.Resolvable e ↔ ∀ r ∈ p.requirements e, r.violation? = none := by
  unfold Pass.requirements
  simp only [List.forall_mem_append, List.forall_mem_map, Option.mem_toList,
    Link.violation?_requirement]
  constructor
  · intro h
    refine ⟨⟨⟨⟨h.vertexLayout, ?_⟩, h.constantBuffer⟩, h.renderState⟩, h.stages⟩
    split
    · simp
    · next hblocks =>
      simp only [List.forall_mem_map, Option.mem_toList, Link.violation?_requirement]
      intro l hl
      exact (h.resources l hl).resolve_left (by simpa using hblocks)
  · rintro ⟨⟨⟨⟨hlayout, hresources⟩, hbuffer⟩, hstate⟩, hstages⟩
    refine ⟨hlayout, ?_, hbuffer, hstate, hstages⟩
    intro l hl
    by_cases hblocks : e.localResources = []
    · exact Or.inl hblocks
    · rw [if_neg (by simpa using hblocks)] at hresources
      simp only [List.forall_mem_map, Option.mem_toList, Link.violation?_requirement] at hresources
      exact Or.inr (hresources l hl)

theorem ResourceBinding.forall_requirements {e : Effect} {scope : String} {b : ResourceBinding} :
    (∀ r ∈ b.requirements e scope, r.violation? = none) ↔
      ∀ buffers ∈ e.buffersFor b.kind, b.Bindable buffers := by
  unfold ResourceBinding.requirements Effect.buffersFor
  cases b.kind <;> simp [violation?_bound]

theorem Effect.resolvable_iff {e : Effect} :
    e.Resolvable ↔ firstViolation e.requirements = none := by
  have hblock : ∀ block : ResourceBlock, (∀ r ∈ block.requirements e, r.violation? = none) ↔
      ∀ b ∈ block.bindings, ∀ buffers ∈ e.buffersFor b.kind, b.Bindable buffers := by
    intro block
    simp only [ResourceBlock.requirements, List.forall_mem_flatMap,
      ResourceBinding.forall_requirements]
  rw [firstViolation_eq_none]
  simp only [Effect.requirements, List.forall_mem_append, List.forall_mem_flatMap, hblock,
    ← Pass.resolvable_iff]
  constructor
  · rintro ⟨hpasses, hbindings⟩
    obtain ⟨hlocal, hglobal⟩ := List.forall_mem_append.mp hbindings
    exact ⟨⟨hpasses, hlocal⟩, hglobal⟩
  · rintro ⟨⟨hpasses, hlocal⟩, hglobal⟩
    exact ⟨hpasses, List.forall_mem_append.mpr ⟨hlocal, hglobal⟩⟩

/-- Resolution succeeds exactly on the effects whose references can be resolved, resolves all of
them then, and fails with the first violation otherwise. -/
theorem Effect.resolve_decides (e : Effect) :
    (e.resolve.error = none ↔ e.Resolvable) ∧
    (e.resolve.error = none → e.ResolvedAs e.resolve.value) ∧
    e.resolve.error = firstViolation e.requirements := by
  have hsettles := e.settles_resolve
  refine ⟨?_, hsettles.value, hsettles.error⟩
  rw [hsettles.error, Effect.resolvable_iff]

/-- Two buffers and two fragments share a name, and every handle is out of date. -/
def wornEffect : Effect where
  name := "E"
  localResources := [{
    name := "R"
    bindings := [
      { name := "B", kind := .uniformBuffer, buffer := some 7 },
      { name := "T", kind := .sampler, buffer := some 3 }] }]
  uniformBuffers := [
    { name := "A" },
    { name := "B", fields := [{ type := ⟨.float4, 2⟩, name := "tint" }] },
    { name := "B" }]
  codeFragments := [⟨"F", "a"⟩, ⟨"F", "b"⟩]
  passes := [{
    name := "P"
    resources := some ⟨"R", some 9⟩
    stages := [{ kind := .fragment, fragment := ⟨"F", some 1⟩ }] }]

/-- The same with a pass that refers to two definitions that are not there. -/
def strayEffect : Effect :=
  { wornEffect with
    passes := wornEffect.passes ++
      [{ name := "Q", renderState := some ⟨"S", none⟩, vertexLayout := some ⟨"V", none⟩ }] }

theorem wornEffect_decided :
    wornEffect.Resolvable ∧ wornEffect.ResolvedAs wornEffect.resolve.value ∧
    ¬ strayEffect.Resolvable ∧
    strayEffect.resolve.error = some (.unresolved "vertex layout" "V" "Q") := by
  obtain ⟨hiff, hresolved, _⟩ := Effect.resolve_decides wornEffect
  obtain ⟨hiff', _, hfirst⟩ := Effect.resolve_decides strayEffect
  have hok : wornEffect.resolve.error = none := by decide +kernel
  have hviolated : firstViolation strayEffect.requirements =
      some (.unresolved "vertex layout" "V" "Q") := by decide +kernel
  have herror := hfirst.trans hviolated
  refine ⟨hiff.mp hok, hresolved hok, ?_, herror⟩
  intro hresolvable
  rw [hiff'.mpr hresolvable] at herror
  cases herror

end Kfx
