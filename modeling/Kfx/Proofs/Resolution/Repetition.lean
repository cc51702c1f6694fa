import Kfx.Proofs.Resolution.Frame

/-!
# Resolution of what resolution left behind

Wherever a run stopped, a second run fails with the same error, or succeeds as the first did, and
changes nothing any more: what was resolved before is found settled, and the reference that failed
was not touched.
-/
namespace Kfx

namespace Resolved

variable {α β : Type} {f g : α → Resolved α} {a : α}

/-- A second run fails as the first did and leaves behind the same. -/
structure Repeats (f : α → Resolved α) (a : α) : Prop where
  error : (f (f a).value).error = (f a).error
  value : (f (f a).value).value = (f a).value

structure Settled (f : α → Resolved α) (a : α) : Prop where
  error : (f a).error = none
  value : (f a).value = a

theorem repeats_of_unchanged (h : (f a).value = a) : Repeats f a :=
  ⟨by rw [h], by rw [h, h]⟩

theorem Repeats.settled (h : Repeats f a) (hok : (f a).error = none) : Settled f (f a).value :=
  ⟨h.error.trans hok, h.value⟩

/-- A step repeats where it does as another one. -/
theorem Repeats.of_eq (h : Repeats g a) (first : f a = g a)
    (second : f (g a).value = g (g a).value) : Repeats f a := by
  constructor
  · rw [first, second, h.error]
  · rw [first, second, h.value]

/-- A step that can always be repeated. After a success its work is done, and whatever comes between
may do as it likes as long as the work stays done. -/
structure Repeating (f : α → Resolved α) (done : α → Prop) : Prop where
  repeats : ∀ a, Repeats f a
  ends : ∀ a, (f a).error = none → done (f a).value
  settled : ∀ a, done a → Settled f a

/-- A step that says something and does nothing. -/
theorem repeating_say (say : α → Log) :
    Repeating (fun a => { value := a, log := say a }) fun _ => True :=
  ⟨fun _ => ⟨rfl, rfl⟩, fun _ _ => trivial, fun _ _ => ⟨rfl, rfl⟩⟩

theorem andThen_of_error {x : Resolved α} {err : ResolveError} (h : x.error = some err) :
    x.andThen g = x := by
  unfold Resolved.andThen
  rw [h]

theorem error_andThen {x : Resolved α} (h : x.error = none) :
    (x.andThen g).error = (g x.value).error := by
  unfold Resolved.andThen
  rw [h]

theorem value_andThen {x : Resolved α} (h : x.error = none) :
    (x.andThen g).value = (g x.value).value := by
  unfold Resolved.andThen
  rw [h]

theorem Settled.andThen (hf : Settled f a) (hg : Settled g a) :
    Settled (fun a => (f a).andThen g) a := by
  constructor
  · rw [error_andThen hf.error, hf.value, hg.error]
  · rw [value_andThen hf.error, hf.value, hg.value]

/-- One step after another, where the second leaves the work of the first done. -/
theorem Repeating.andThen {done next : α → Prop} (hf : Repeating f done) (hg : Repeating g next)
    (kept : ∀ a, done a → done (g a).value) :
    Repeating (fun a => (f a).andThen g) fun a => done a ∧ next a := by
  refine ⟨?_, ?_, fun a h => (hf.settled a h.1).andThen (hg.settled a h.2)⟩
  · intro a
    cases herror : (f a).error with
    | some err =>
      have hagain : (f (f a).value).error = some err := (hf.repeats a).error.trans herror
      constructor
      · rw [andThen_of_error herror, andThen_of_error hagain, hagain, herror]
      · rw [andThen_of_error herror, andThen_of_error hagain, (hf.repeats a).value]
    | none =>
      have hdone : done (g (f a).value).value := kept _ (hf.ends a herror)
      obtain ⟨hfirst, hsame⟩ := hf.settled _ hdone
      have hsecond := hg.repeats (f a).value
      constructor
      · rw [error_andThen herror, value_andThen herror, error_andThen hfirst, hsame, hsecond.error]
      · rw [value_andThen herror, value_andThen hfirst, hsame, hsecond.value]
  · intro a hok
    cases herror : (f a).error with
    | some err =>
      rw [andThen_of_error herror, herror] at hok
      cases hok
    | none =>
      rw [error_andThen herror] at hok
      rw [value_andThen herror]
      exact ⟨kept _ (hf.ends a herror), hg.ends _ hok⟩

/-- A part of a value that can be replaced. -/
structure Part (α β : Type) where
  get : α → β
  set : α → β → α
  get_set : ∀ a b, get (set a b) = b := by intros; rfl
  set_get : ∀ a, set a (get a) = a := by intros; rfl
  set_set : ∀ a b c, set (set a b) c = set a c := by intros; rfl

/-- A step on one part of a value, which looks only at what is outside that part. -/
theorem Repeating.onPart (part : Part α β) {inner : α → β → Resolved β}
    (repeats : ∀ a, Repeats (inner a) (part.get a))
    (outside : ∀ a b, inner (part.set a b) = inner a := by intros; rfl) :
    Repeating (fun a => (inner a (part.get a)).map (part.set a))
      fun a => Settled (inner a) (part.get a) := by
  refine ⟨?_, ?_, ?_⟩
  · intro a
    obtain ⟨herror, hvalue⟩ := repeats a
    constructor
    · simp only [Resolved.map, outside, part.get_set, herror]
    · simp only [Resolved.map, outside, part.get_set, part.set_set, hvalue]
  · intro a hok
    have hsettled := (repeats a).settled hok
    simp only [Resolved.map, outside, part.get_set]
    exact hsettled
  · intro a h
    refine ⟨h.error, ?_⟩
    simp only [Resolved.map, h.value, part.set_get]

theorem sweep_of_error {items : List α} {err : ResolveError} (h : (f a).error = some err) :
    sweep f (a :: items) = ⟨(f a).value :: items, (f a).log, some err⟩ := by
  rw [sweep, h]

theorem sweep_of_ok {items : List α} (h : (f a).error = none) :
    sweep f (a :: items) = ⟨(f a).value :: (sweep f items).value,
      (f a).log ++ (sweep f items).log, (sweep f items).error⟩ := by
  rw [sweep, h]

/-- Going through a list a second time changes nothing if it changes no element. -/
theorem repeats_sweep {items : List α} (each : ∀ a ∈ items, Repeats f a) :
    Repeats (sweep f) items := by
  induction items with
  | nil => exact ⟨rfl, rfl⟩
  | cons a items ih =>
    obtain ⟨⟨herror, hvalue⟩, hitems⟩ := List.forall_mem_cons.mp each
    cases hfirst : (f a).error with
    | some err =>
      have hagain := herror.trans hfirst
      constructor
      · rw [sweep_of_error hfirst, sweep_of_error hagain]
      · rw [sweep_of_error hfirst, sweep_of_error hagain, hvalue]
    | none =>
      have hagain := herror.trans hfirst
      obtain ⟨hrest, hsame⟩ := ih hitems
      constructor
      · rw [sweep_of_ok hfirst, sweep_of_ok hagain, hrest]
      · rw [sweep_of_ok hfirst, sweep_of_ok hagain, hvalue, hsame]

end Resolved

open Resolved

theorem Link.repeats_resolve {α : Type} [Named α] (items : List α) (kind scope : String)
    (l : Link) : Repeats (Link.resolve items kind scope) l := by
  cases hfind : findByName items l.name with
  | none => exact repeats_of_unchanged (by simp only [Link.resolve, hfind])
  | some h => constructor <;> simp only [Link.resolve, hfind]

theorem repeats_resolveOptional {α : Type} [Named α] (items : List α) (kind scope : String)
    (l : Option Link) : Repeats (resolveOptional items kind scope) l := by
  cases l with
  | none => exact repeats_of_unchanged rfl
  | some l =>
    obtain ⟨herror, hvalue⟩ := l.repeats_resolve items kind scope
    exact ⟨herror, congrArg some hvalue⟩

theorem repeats_resolveResources (blocks : List ResourceBlock) (scope : String)
    (l : Option Link) : Repeats (resolveResources blocks scope) l := by
  cases l with
  | none => exact repeats_of_unchanged rfl
  | some l =>
    cases blocks with
    | nil => exact ⟨rfl, rfl⟩
    | cons block blocks =>
      obtain ⟨herror, hvalue⟩ := l.repeats_resolve (block :: blocks) "resource block" scope
      exact ⟨herror, congrArg some hvalue⟩

/-- The stages of a pass named `scope`. -/
theorem repeats_stages (e : Effect) (scope : String) (stages : List Stage) :
    Repeats (sweep fun s => (s.fragment.resolve e.codeFragments "GLSL fragment" scope).map fun l =>
      { s with fragment := l }) stages := by
  have hstage := Repeating.onPart
    { get := Stage.fragment, set := fun s l => { s with fragment := l } }
    fun s => s.fragment.repeats_resolve e.codeFragments "GLSL fragment" scope
  exact repeats_sweep fun s _ => hstage.repeats s

/-- Resolving a pass a second time changes nothing, also where it failed. -/
theorem Pass.repeats_resolve (e : Effect) (p : Pass) : Repeats (Pass.resolve e) p := by
  have hlayout := Repeating.onPart
    { get := Pass.vertexLayout, set := fun q l => { q with vertexLayout := l } }
    fun q => repeats_resolveOptional e.vertexLayouts "vertex layout" q.name q.vertexLayout
  have hresources := Repeating.onPart
    { get := Pass.resources, set := fun q l => { q with resources := l } }
    fun q => repeats_resolveResources e.localResources q.name q.resources
  have hbuffer := Repeating.onPart
    { get := Pass.constantBuffer, set := fun q l => { q with constantBuffer := l } }
    fun q => repeats_resolveOptional e.constantBuffers "constant buffer" q.name q.constantBuffer
  have hstate := Repeating.onPart
    { get := Pass.renderState, set := fun q l => { q with renderState := l } }
    fun q => repeats_resolveOptional e.renderStates "render state" q.name q.renderState
  have hstages := Repeating.onPart
    { get := Pass.stages, set := fun q stages => { q with stages } }
    fun q => repeats_stages e q.name q.stages
  -- No step touches a field that an earlier one settled.
  have hpass := (((((repeating_say fun _ => []).andThen hlayout fun _ h => h).andThen hresources
    fun _ h => h).andThen hbuffer fun _ h => h).andThen hstate fun _ h => h).andThen hstages
    fun _ h => h
  exact hpass.repeats p

/-- Binding a buffer a second time changes nothing. -/
theorem ResourceBinding.repeats_bindBuffer (buffers : List Buffer) (kind scope : String)
    (b : ResourceBinding) : Repeats (ResourceBinding.bindBuffer buffers kind scope) b := by
  cases hfind : indexOf? buffers b.name with
  | none => exact repeats_of_unchanged (by simp only [bindBuffer, hfind])
  | some i =>
    cases hsize : buffers[i].size with
    | none => exact repeats_of_unchanged (by simp only [bindBuffer, hfind, hsize])
    | some computed =>
      cases hdeclared : b.size with
      | none =>
        -- The second run finds the size that the first one filled in.
        constructor <;> simp only [bindBuffer, hfind, hsize, hdeclared, if_true]
      | some declared =>
        by_cases hsame : declared = computed
        · constructor <;> simp only [bindBuffer, hfind, hsize, hdeclared, if_pos hsame]
        · exact repeats_of_unchanged
            (by simp only [bindBuffer, hfind, hsize, hdeclared, if_neg hsame])

theorem ResourceBinding.repeats_resolve (e : Effect) (scope : String) (b : ResourceBinding) :
    Repeats (ResourceBinding.resolve e scope) b := by
  have hkept : ∀ (buffers : List Buffer) (kind : String),
      (b.bindBuffer buffers kind scope).value.kind = b.kind := by
    intro buffers kind
    have hrebound : b.Rebound (b.bindBuffer buffers kind scope).value := b.rebound_bindBuffer
    have hkind := congrArg ResourceBinding.kind hrebound.1
    exact hkind
  have hbound : ∀ (buffers : List Buffer) (kind : String),
      (∀ c : ResourceBinding, c.kind = b.kind →
        c.resolve e scope = c.bindBuffer buffers kind scope) →
      Repeats (ResourceBinding.resolve e scope) b := by
    intro buffers kind hresolve
    exact (b.repeats_bindBuffer buffers kind scope).of_eq (hresolve b rfl) (hresolve _ (hkept _ _))
  cases hkind : b.kind with
  | uniformBuffer =>
    refine hbound e.uniformBuffers "uniform buffer" fun c hc => ?_
    simp only [ResourceBinding.resolve, hc, hkind]
  | storageBuffer =>
    refine hbound e.storageBuffers "storage buffer" fun c hc => ?_
    simp only [ResourceBinding.resolve, hc, hkind]
  | sampler => constructor <;> simp only [ResourceBinding.resolve, hkind]

theorem ResourceBlock.repeats_resolve (e : Effect) (block : ResourceBlock) :
    Repeats (ResourceBlock.resolve e) block := by
  have hblock := Repeating.onPart
    { get := ResourceBlock.bindings, set := fun block bindings => { block with bindings } }
    fun block => repeats_sweep fun b (_ : b ∈ block.bindings) => b.repeats_resolve e block.name
  exact hblock.repeats block

/-- Resolving an effect a second time changes nothing, also where it failed. -/
theorem Effect.repeats_resolve (e : Effect) : Repeats Effect.resolve e := by
  have hpasses := Repeating.onPart
    { get := Effect.passes, set := fun r passes => { r with passes } }
    fun r => repeats_sweep fun p (_ : p ∈ r.passes) => p.repeats_resolve r
  have hlocal := Repeating.onPart
    { get := Effect.localResources, set := fun r localResources => { r with localResources } }
    fun r => repeats_sweep fun block (_ : block ∈ r.localResources) => block.repeats_resolve r
  have hglobal := Repeating.onPart
    { get := Effect.globalResources, set := fun r globalResources => { r with globalResources } }
    fun r => repeats_sweep fun block (_ : block ∈ r.globalResources) => block.repeats_resolve r
  -- Passes look at the names of local blocks, and resolution keeps those.
  have hsame : ∀ r : Effect, Pass.resolve { r with
      localResources := (sweep (ResourceBlock.resolve r) r.localResources).value } =
        Pass.resolve r :=
    fun r => Pass.resolve_congr (map_sweep Named.name fun _ _ => rfl)
  have hkept : ∀ r : Effect, Settled (sweep (Pass.resolve r)) r.passes →
      Settled (sweep (Pass.resolve { r with
          localResources := (sweep (ResourceBlock.resolve r) r.localResources).value }))
        r.passes := by
    intro r h
    rwa [hsame]
  have hresolved := (((repeating_say fun _ => []).andThen hpasses fun _ h => h).andThen hlocal
    fun r h => ⟨h.1, hkept r h.2⟩).andThen hglobal fun _ h => h
  unfold Effect.resolve
  exact (hresolved.andThen (repeating_say _) fun _ h => h).repeats e

/-- Resolution is idempotent, wherever it stopped. -/
theorem Effect.resolve_idempotent (e : Effect) :
    e.resolve.value.resolve.error = e.resolve.error ∧
    e.resolve.value.resolve.value = e.resolve.value :=
  ⟨e.repeats_resolve.error, e.repeats_resolve.value⟩

end Kfx
