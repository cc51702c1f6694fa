import Mathlib.Data.List.Forall2
import Kfx.Resolution
import Kfx.Proofs.Resolution.Decision

/-!
# What resolution leaves alone

Resolution writes targets and handles, drops references to resources where there is no local block,
and fills in sizes that were left out, also where it stops in the middle. It reads no handle: an
effect whose handles were all cleared beforehand is resolved alike.
-/
namespace Kfx

/-- A reference that was never resolved. -/
def Link.cleared (l : Link) : Link := { l with target := none }

def Stage.cleared (s : Stage) : Stage := { s with fragment := s.fragment.cleared }

def Pass.cleared (p : Pass) : Pass :=
  { p with
    vertexLayout := p.vertexLayout.map Link.cleared
    resources := p.resources.map Link.cleared
    constantBuffer := p.constantBuffer.map Link.cleared
    renderState := p.renderState.map Link.cleared
    stages := p.stages.map Stage.cleared }

def ResourceBinding.cleared (b : ResourceBinding) : ResourceBinding := { b with buffer := none }

def ResourceBlock.cleared (block : ResourceBlock) : ResourceBlock :=
  { block with bindings := block.bindings.map ResourceBinding.cleared }

/-- The effect without the target of any link and the handle of any binding. -/
def Effect.cleared (e : Effect) : Effect :=
  { e with
    passes := e.passes.map Pass.cleared
    localResources := e.localResources.map ResourceBlock.cleared
    globalResources := e.globalResources.map ResourceBlock.cleared }

/-- The passes differ in targets only, or else also in resources that were dropped for want of a
local block. -/
def Pass.Relinked (e : Effect) (before after : Pass) : Prop :=
  after.cleared = before.cleared ∨
    e.localResources = [] ∧ after.cleared = { before.cleared with resources := none }

/-- The bindings differ in the handle only, or else also in a size that was left out before. -/
def ResourceBinding.Rebound (before after : ResourceBinding) : Prop :=
  after.cleared = { before.cleared with size := after.size } ∧
    ∀ declared ∈ before.size, after.size = some declared

structure ResourceBlock.Rebound (before after : ResourceBlock) : Prop where
  bindings : List.Forall₂ ResourceBinding.Rebound before.bindings after.bindings
  rest : after = { before with bindings := after.bindings }

/-- The effects differ in passes and blocks as above and in nothing else. -/
structure Effect.Relinked (before after : Effect) : Prop where
  passes : List.Forall₂ (Pass.Relinked before) before.passes after.passes
  localResources : List.Forall₂ ResourceBlock.Rebound before.localResources after.localResources
  globalResources : List.Forall₂ ResourceBlock.Rebound before.globalResources after.globalResources
  rest : after = { before with
    passes := after.passes
    localResources := after.localResources
    globalResources := after.globalResources }

theorem ResourceBinding.rebound_refl (b : ResourceBinding) : b.Rebound b :=
  ⟨rfl, fun _ h => h⟩

theorem ResourceBlock.rebound_refl (block : ResourceBlock) : block.Rebound block :=
  ⟨List.forall₂_same.mpr fun b _ => b.rebound_refl, rfl⟩

namespace Resolved

variable {α β : Type} {f : α → Resolved α} {items : List α}

/-- What a step left behind, or what the next one made of it. -/
theorem andThen_leaves (one : α → Prop) {two : α → Prop} {x : Resolved α} (hx : one x.value)
    (weaker : ∀ a, one a → two a) (hf : ∀ a, one a → two (f a).value) :
    two (x.andThen f).value := by
  unfold Resolved.andThen
  cases x.error with
  | some err => exact weaker x.value hx
  | none => exact hf x.value hx

/-- Elements behind a failure stay as they are. -/
theorem sweep_leaves (relation : α → α → Prop) (refl : ∀ a, relation a a)
    (each : ∀ a ∈ items, relation a (f a).value) :
    List.Forall₂ relation items (sweep f items).value := by
  induction items with
  | nil => exact .nil
  | cons a items ih =>
    obtain ⟨hfirst, hitems⟩ := List.forall_mem_cons.mp each
    rw [sweep]
    cases (f a).error with
    | some err => exact .cons hfirst (List.forall₂_same.mpr fun b _ => refl b)
    | none => exact .cons hfirst (ih hitems)

theorem map_sweep (view : α → β) (each : ∀ a ∈ items, view (f a).value = view a) :
    (sweep f items).value.map view = items.map view := by
  have hleaves := sweep_leaves (fun a b => view b = view a) (fun _ => rfl) each
  rw [← List.forall₂_eq_eq_eq, List.forall₂_map_left_iff, List.forall₂_map_right_iff]
  exact hleaves.flip

end Resolved

open Resolved

section

variable {α : Type} [Named α] {items : List α} {kind scope : String}

theorem Link.cleared_resolve (l : Link) :
    (l.resolve items kind scope).value.cleared = l.cleared := by
  unfold Link.resolve
  cases findByName items l.name <;> rfl

theorem map_cleared_resolveOptional (l : Option Link) :
    (resolveOptional items kind scope l).value.map Link.cleared = l.map Link.cleared := by
  cases l with
  | none => rfl
  | some l => exact congrArg some l.cleared_resolve

end

theorem map_cleared_resolveResources (blocks : List ResourceBlock) (scope : String)
    (l : Option Link) :
    (resolveResources blocks scope l).value.map Link.cleared = l.map Link.cleared ∨
      blocks = [] ∧ (resolveResources blocks scope l).value = none := by
  cases l with
  | none => exact Or.inl rfl
  | some l =>
    cases blocks with
    | nil => exact Or.inr ⟨rfl, rfl⟩
    | cons block blocks => exact Or.inl (congrArg some l.cleared_resolve)

theorem Stage.cleared_resolve (e : Effect) (scope : String) (s : Stage) :
    ((s.fragment.resolve e.codeFragments "GLSL fragment" scope).map fun l =>
      { s with fragment := l }).value.cleared = s.cleared := by
  have hlink : (s.fragment.resolve e.codeFragments "GLSL fragment" scope).value.cleared =
      s.fragment.cleared := s.fragment.cleared_resolve
  exact congrArg (fun l => { s with fragment := l }) hlink

/-- Resolving a pass changes targets only, and drops resources where there is no local block. -/
theorem Pass.relinked_resolve (e : Effect) (p : Pass) : p.Relinked e (p.resolve e).value := by
  -- A step that changes nothing but targets keeps the relation to the pass before all steps.
  have kept : ∀ q r : Pass, p.Relinked e q → r.cleared = q.cleared → p.Relinked e r := by
    intro q r hq hsame
    rwa [Pass.Relinked, hsame]
  unfold Pass.resolve
  refine andThen_keeps (p.Relinked e) (andThen_keeps (p.Relinked e) (andThen_keeps (p.Relinked e)
    (andThen_keeps (p.Relinked e) (andThen_keeps (p.Relinked e) (Or.inl rfl) ?_) ?_) ?_) ?_) ?_
  · intro q hq
    refine kept q _ hq ?_
    simp only [Resolved.map, Pass.cleared, map_cleared_resolveOptional]
  · intro q hq
    rcases map_cleared_resolveResources e.localResources q.name q.resources with
      hsame | ⟨hempty, hnone⟩
    · refine kept q _ hq ?_
      simp only [Resolved.map, Pass.cleared, hsame]
    · refine Or.inr ⟨hempty, ?_⟩
      simp only [Resolved.map, hnone]
      rcases hq with hq | ⟨_, hq⟩
      · exact congrArg (fun r : Pass => { r with resources := none }) hq
      · exact congrArg (fun r : Pass => { r with resources := none }) hq
  · intro q hq
    refine kept q _ hq ?_
    simp only [Resolved.map, Pass.cleared, map_cleared_resolveOptional]
  · intro q hq
    refine kept q _ hq ?_
    simp only [Resolved.map, Pass.cleared, map_cleared_resolveOptional]
  · intro q hq
    refine kept q _ hq ?_
    have hstages := map_sweep Stage.cleared fun s (_ : s ∈ q.stages) => s.cleared_resolve e q.name
    exact congrArg (fun stages => { q.cleared with stages }) hstages

theorem ResourceBinding.rebound_bindBuffer {buffers : List Buffer} {kind scope : String}
    (b : ResourceBinding) : b.Rebound (b.bindBuffer buffers kind scope).value := by
  unfold ResourceBinding.bindBuffer
  split
  · exact b.rebound_refl
  · split
    · exact b.rebound_refl
    · split
      · next hnone =>
        refine ⟨rfl, ?_⟩
        rw [hnone]
        intro declared hdeclared
        cases hdeclared
      · split
        · exact ⟨rfl, fun _ h => h⟩
        · exact b.rebound_refl

theorem ResourceBinding.rebound_resolve (e : Effect) (scope : String) (b : ResourceBinding) :
    b.Rebound (b.resolve e scope).value := by
  unfold ResourceBinding.resolve
  split
  · exact b.rebound_bindBuffer
  · exact b.rebound_bindBuffer
  · exact ⟨rfl, fun _ h => h⟩

theorem ResourceBlock.rebound_resolve (e : Effect) (block : ResourceBlock) :
    block.Rebound (block.resolve e).value :=
  ⟨sweep_leaves _ ResourceBinding.rebound_refl fun b _ => b.rebound_resolve e block.name, rfl⟩

theorem Effect.rebound_blocks (e : Effect) (blocks : List ResourceBlock) :
    List.Forall₂ ResourceBlock.Rebound blocks (sweep (ResourceBlock.resolve e) blocks).value :=
  sweep_leaves _ ResourceBlock.rebound_refl fun block _ => block.rebound_resolve e

/-- So does resolving an effect, wherever it stops. -/
theorem Effect.relinked_resolve (e : Effect) : e.Relinked e.resolve.value := by
  let passesRel := List.Forall₂ (Pass.Relinked e) e.passes
  let localRel := List.Forall₂ ResourceBlock.Rebound e.localResources
  let one : Effect → Prop := fun r => ∃ passes, passesRel passes ∧ r = { e with passes }
  let two : Effect → Prop := fun r => ∃ passes blocks, passesRel passes ∧ localRel blocks ∧
    r = { e with passes, localResources := blocks }
  have samePasses : passesRel e.passes := List.forall₂_same.mpr fun p _ => Or.inl rfl
  have sameBlocks : ∀ blocks, List.Forall₂ ResourceBlock.Rebound blocks blocks :=
    fun blocks => List.forall₂_same.mpr fun block _ => block.rebound_refl
  unfold Effect.resolve
  refine andThen_keeps e.Relinked (andThen_leaves two (andThen_leaves one
    (andThen_leaves (· = e) rfl ?_ ?_) ?_ ?_) ?_ ?_) fun r hr => hr
  · rintro r rfl
    exact ⟨r.passes, samePasses, rfl⟩
  · rintro r rfl
    exact ⟨_, sweep_leaves _ (fun p => Or.inl rfl) fun p _ => p.relinked_resolve r, rfl⟩
  · rintro r ⟨passes, hpasses, rfl⟩
    exact ⟨passes, e.localResources, hpasses, sameBlocks _, rfl⟩
  · rintro r ⟨passes, hpasses, rfl⟩
    exact ⟨passes, _, hpasses, Effect.rebound_blocks _ _, rfl⟩
  · rintro r ⟨passes, blocks, hpasses, hblocks, rfl⟩
    exact ⟨hpasses, hblocks, sameBlocks _, rfl⟩
  · rintro r ⟨passes, blocks, hpasses, hblocks, rfl⟩
    exact ⟨hpasses, hblocks, Effect.rebound_blocks _ _, rfl⟩

/-- Looking for a name reads nothing but names. -/
theorem findByName_congr {α : Type} [Named α] {items items' : List α}
    (same : items'.map Named.name = items.map Named.name) :
    findByName items' = findByName items := by
  have hnames : ∀ (xs : List α) (name : String),
      findByName xs name = ((xs.map Named.name).findIdx? (· == name)).map UInt32.ofNat := by
    intro xs name
    rw [List.findIdx?_map, List.findIdx?_eq_map_findFinIdx?_val, Option.map_map]
    rfl
  funext name
  rw [hnames, hnames, same]

theorem resolveResources_congr {blocks blocks' : List ResourceBlock}
    (same : blocks'.map Named.name = blocks.map Named.name) :
    resolveResources blocks' = resolveResources blocks := by
  have hempty : blocks'.isEmpty = blocks.isEmpty := by
    rw [← List.isEmpty_map (f := Named.name), same, List.isEmpty_map]
  funext scope l
  cases l with
  | none => rfl
  | some l => simp only [resolveResources, Link.resolve, hempty, findByName_congr same]

/-- Passes are resolved alike whatever the other passes and the bindings are. -/
theorem Pass.resolve_congr {e : Effect} {passes : List Pass} {blocks others : List ResourceBlock}
    (same : blocks.map Named.name = e.localResources.map Named.name) :
    Pass.resolve { e with passes, localResources := blocks, globalResources := others } =
      Pass.resolve e := by
  funext p
  simp only [Pass.resolve, resolveResources_congr same]

namespace Resolved

variable {α β : Type}

/-- Two steps fail alike; if they do not fail, what they leave behind is related. -/
structure Alike (x y : Resolved α) (post : α → α → Prop) : Prop where
  error : y.error = x.error
  value : x.error = none → post x.value y.value

theorem alike_value {a b : α} {log log' : Log} {post : α → α → Prop} (h : post a b) :
    Alike { value := a, log } { value := b, log := log' } post :=
  ⟨rfl, fun _ => h⟩

theorem alike_error {a b : α} {err : ResolveError} {post : α → α → Prop} :
    Alike { value := a, error := some err } { value := b, error := some err } post :=
  ⟨rfl, fun h => by cases h⟩

/-- Equal parts, put into place on both sides. -/
theorem Alike.map {x y : Resolved α} {f g : α → β} {post : β → β → Prop} (h : Alike x y Eq)
    (related : ∀ a, post (f a) (g a)) : Alike (x.map f) (y.map g) post := by
  refine ⟨h.error, fun hok => ?_⟩
  change post (f x.value) (g y.value)
  rw [← h.value hok]
  exact related x.value

theorem Alike.andThen (middle : α → α → Prop) {post : α → α → Prop} {x y : Resolved α}
    {f g : α → Resolved α} (hxy : Alike x y middle)
    (hfg : ∀ a b, middle a b → Alike (f a) (g b) post) :
    Alike (x.andThen f) (y.andThen g) post := by
  obtain ⟨herror, hvalue⟩ := hxy
  unfold Resolved.andThen
  rw [herror]
  cases hx : x.error with
  | some err => exact ⟨herror, fun hok => by cases hx.symm.trans hok⟩
  | none =>
    have hnext := hfg x.value y.value (hvalue hx)
    exact ⟨hnext.error, hnext.value⟩

theorem alike_sweep {view : α → α} {f : α → Resolved α} {items : List α}
    (each : ∀ a ∈ items, Alike (f a) (f (view a)) Eq) :
    Alike (sweep f items) (sweep f (items.map view)) Eq := by
  induction items with
  | nil => exact alike_value rfl
  | cons a items ih =>
    obtain ⟨hfirst, hitems⟩ := List.forall_mem_cons.mp each
    have hrest := ih hitems
    rw [List.map_cons, sweep, sweep, hfirst.error]
    cases herror : (f a).error with
    | some err => exact ⟨rfl, fun hok => by cases hok⟩
    | none =>
      refine ⟨hrest.error, fun hok => ?_⟩
      exact congrArg₂ List.cons (hfirst.value herror) (hrest.value hok)

end Resolved

section

variable {α : Type} [Named α] {items : List α} {kind scope : String}

theorem Link.alike_cleared (l : Link) :
    Alike (l.resolve items kind scope) (l.cleared.resolve items kind scope) Eq := by
  unfold Link.resolve
  have hname : l.cleared.name = l.name := rfl
  rw [hname]
  cases findByName items l.name with
  | none => exact alike_error
  | some h => exact alike_value rfl

theorem resolveOptional_alike_cleared (l : Option Link) :
    Alike (resolveOptional items kind scope l)
      (resolveOptional items kind scope (l.map Link.cleared)) Eq := by
  cases l with
  | none => exact alike_value rfl
  | some l => exact l.alike_cleared.map fun _ => rfl

end

theorem resolveResources_alike_cleared {blocks : List ResourceBlock} {scope : String}
    (l : Option Link) :
    Alike (resolveResources blocks scope l)
      (resolveResources blocks scope (l.map Link.cleared)) Eq := by
  cases l with
  | none => exact alike_value rfl
  | some l =>
    cases blocks with
    | nil => exact alike_value rfl
    | cons block blocks => exact l.alike_cleared.map fun _ => rfl

/-- Old targets of a pass make no difference. -/
theorem Pass.alike_cleared (e : Effect) (p : Pass) :
    Alike (p.resolve e) (p.cleared.resolve e) Eq := by
  -- After each step the passes agree in one more field; the others are still cleared in one.
  let one : Pass → Pass → Prop := fun q r => r = { q.cleared with vertexLayout := q.vertexLayout }
  let two : Pass → Pass → Prop := fun q r =>
    r = { q.cleared with vertexLayout := q.vertexLayout, resources := q.resources }
  let three : Pass → Pass → Prop := fun q r =>
    r = { q with renderState := q.cleared.renderState, stages := q.cleared.stages }
  let four : Pass → Pass → Prop := fun q r => r = { q with stages := q.cleared.stages }
  unfold Pass.resolve
  refine Alike.andThen four (Alike.andThen three (Alike.andThen two (Alike.andThen one
    (Alike.andThen (fun q r => r = q.cleared) (alike_value rfl) ?_) ?_) ?_) ?_) ?_
  · rintro q _ rfl
    exact (resolveOptional_alike_cleared q.vertexLayout).map fun _ => rfl
  · rintro q _ rfl
    exact (resolveResources_alike_cleared q.resources).map fun _ => rfl
  · rintro q _ rfl
    exact (resolveOptional_alike_cleared q.constantBuffer).map fun _ => rfl
  · rintro q _ rfl
    exact (resolveOptional_alike_cleared q.renderState).map fun _ => rfl
  · rintro q _ rfl
    have hstages : ∀ s ∈ q.stages, Alike
        ((s.fragment.resolve e.codeFragments "GLSL fragment" q.name).map fun l =>
          ({ s with fragment := l } : Stage))
        ((s.cleared.fragment.resolve e.codeFragments "GLSL fragment" q.name).map fun l =>
          { s.cleared with fragment := l }) Eq := by
      intro s hs
      exact s.fragment.alike_cleared.map fun _ => rfl
    exact (alike_sweep hstages).map fun _ => rfl

theorem ResourceBinding.bindBuffer_alike_cleared {buffers : List Buffer} {kind scope : String}
    (b : ResourceBinding) :
    Alike (b.bindBuffer buffers kind scope) (b.cleared.bindBuffer buffers kind scope) Eq := by
  have hname : b.cleared.name = b.name := rfl
  have hsize : b.cleared.size = b.size := rfl
  unfold ResourceBinding.bindBuffer
  rw [hname, hsize]
  split
  · exact alike_error
  · next i _ =>
    cases buffers[i].size with
    | none => exact alike_error
    | some computed =>
      cases hdeclared : b.size with
      | none => exact alike_value rfl
      | some declared =>
        dsimp only
        split
        · exact alike_value (by simp only [ResourceBinding.cleared])
        · exact alike_error

theorem ResourceBinding.alike_cleared (e : Effect) (scope : String) (b : ResourceBinding) :
    Alike (b.resolve e scope) (b.cleared.resolve e scope) Eq := by
  have hkind : b.cleared.kind = b.kind := rfl
  unfold ResourceBinding.resolve
  rw [hkind]
  split
  · exact b.bindBuffer_alike_cleared
  · exact b.bindBuffer_alike_cleared
  · exact alike_value rfl

theorem ResourceBlock.alike_cleared (e : Effect) (block : ResourceBlock) :
    Alike (block.resolve e) (block.cleared.resolve e) Eq :=
  (alike_sweep fun b _ => b.alike_cleared e block.name).map fun _ => rfl

/-- Old handles of an effect make no difference. -/
theorem Effect.alike_cleared (e : Effect) : Alike e.resolve e.cleared.resolve Eq := by
  let one : Effect → Effect → Prop := fun q r => r = { q.cleared with passes := q.passes }
  let two : Effect → Effect → Prop := fun q r =>
    r = { q with globalResources := q.cleared.globalResources }
  have hnames : ∀ q : Effect,
      q.cleared.localResources.map Named.name = q.localResources.map Named.name :=
    fun q => List.map_map
  unfold Effect.resolve
  refine Alike.andThen Eq (Alike.andThen two (Alike.andThen one
    (Alike.andThen (fun q r => r = q.cleared) (alike_value rfl) ?_) ?_) ?_) ?_
  · rintro q _ rfl
    have hsame : Pass.resolve q.cleared = Pass.resolve q := Pass.resolve_congr (hnames q)
    rw [hsame]
    exact (alike_sweep fun p _ => p.alike_cleared q).map fun _ => rfl
  · rintro q _ rfl
    exact (alike_sweep fun block _ => block.alike_cleared q).map fun _ => rfl
  · rintro q _ rfl
    exact (alike_sweep fun block _ => block.alike_cleared q).map fun _ => rfl
  · rintro q _ rfl
    exact alike_value rfl

/-- Resolution changes targets and handles, drops resources where there is no local block, fills in
sizes, and leaves all else alone, whether or not it fails. The targets and handles it finds make no
difference to its result, nor to the effect where it succeeds. -/
theorem Effect.resolve_changes_only_links (e : Effect) :
    e.Relinked e.resolve.value ∧
    e.cleared.resolve.error = e.resolve.error ∧
    (e.resolve.error = none → e.cleared.resolve.value = e.resolve.value) := by
  obtain ⟨herror, hvalue⟩ := e.alike_cleared
  exact ⟨e.relinked_resolve, herror, fun hok => (hvalue hok).symm⟩

/-- The effect with stale handles and the one without them end alike; the one with a stray pass is
left half resolved. -/
theorem wornEffect_changes_only_links :
    wornEffect.resolve.error = none ∧ wornEffect.cleared ≠ wornEffect ∧
    wornEffect.cleared.resolve.value = wornEffect.resolve.value ∧
    strayEffect.resolve.error ≠ none ∧ strayEffect.resolve.value ≠ strayEffect ∧
    strayEffect.Relinked strayEffect.resolve.value := by
  have hok : wornEffect.resolve.error = none := by decide +kernel
  obtain ⟨_, _, hvalue⟩ := Effect.resolve_changes_only_links wornEffect
  obtain ⟨hrelinked, _⟩ := Effect.resolve_changes_only_links strayEffect
  exact ⟨hok, by decide +kernel, hvalue hok, by decide +kernel, by decide +kernel, hrelinked⟩

end Kfx
