import Kfx.Resolution
import Kfx.Proofs.Artifact.Relink

/-!
# What resolution leaves behind

What a resolution that did not fail leaves behind: every reference points at a definition of its own
name, and every buffer binding into the array for its kind. Indices are words, so this needs arrays
that a word can count.
-/
namespace Kfx

namespace Resolved

variable {α β : Type} {post : α → Prop} {post' : β → Prop}

/-- What was resolved without a failure has the property. -/
def Ensures (x : Resolved α) (post : α → Prop) : Prop :=
  x.error = none → post x.value

theorem ensures_value {a : α} {log : Log} (h : post a) : Ensures { value := a, log } post :=
  fun _ => h

theorem ensures_error {a : α} {e : ResolveError} : Ensures { value := a, error := some e } post :=
  fun h => by cases h

theorem Ensures.imp {x : Resolved α} {weaker : α → Prop} (h : Ensures x post)
    (himp : ∀ a, post a → weaker a) : Ensures x weaker :=
  fun hok => himp x.value (h hok)

theorem Ensures.map {x : Resolved α} {f : α → β} (h : Ensures x fun a => post' (f a)) :
    Ensures (x.map f) post' := h

theorem ensures_andThen (middle : α → Prop) {x : Resolved α} {f : α → Resolved α}
    (hx : Ensures x middle) (hf : ∀ a, middle a → Ensures (f a) post) :
    Ensures (x.andThen f) post := by
  unfold Resolved.andThen
  cases he : x.error with
  | some e =>
    intro h
    rw [he] at h
    cases h
  | none => exact hf x.value (hx he)

/-- Elements in order, each with a property of its own. -/
theorem ensures_sweep (relation : α → α → Prop) {f : α → Resolved α} {items : List α}
    (each : ∀ a ∈ items, Ensures (f a) (relation a)) :
    Ensures (sweep f items) fun out =>
      ∃ g : α → α, out = items.map g ∧ ∀ a ∈ items, relation a (g a) := by
  suffices h : (sweep f items).error = none →
      (∀ a ∈ items, (f a).error = none) ∧ (sweep f items).value = items.map fun a => (f a).value by
    intro hnone
    obtain ⟨hok, hvalue⟩ := h hnone
    exact ⟨fun a => (f a).value, hvalue, fun a ha => each a ha (hok a ha)⟩
  clear each
  induction items with
  | nil => exact fun _ => ⟨fun a ha => (by cases ha), rfl⟩
  | cons a items ih =>
    rw [sweep]
    cases ha : (f a).error with
    | some e =>
      intro h
      cases h
    | none =>
      intro h
      obtain ⟨hitems, hvalue⟩ := ih h
      exact ⟨List.forall_mem_cons.mpr ⟨ha, hitems⟩, congrArg ((f a).value :: ·) hvalue⟩

theorem ensures_sweep_forall (post : α → Prop) {f : α → Resolved α} {items : List α}
    (each : ∀ a ∈ items, Ensures (f a) post) :
    Ensures (sweep f items) fun out => ∀ a ∈ out, post a := by
  refine (ensures_sweep (fun _ => post) each).imp ?_
  rintro out ⟨g, rfl, hg⟩
  exact List.forall_mem_map.mpr hg

/-- A property that the next step keeps is kept, whether or not there is a failure. -/
theorem andThen_keeps (kept : α → Prop) {x : Resolved α} {f : α → Resolved α} (hx : kept x.value)
    (hf : ∀ a, kept a → kept (f a).value) : kept (x.andThen f).value := by
  unfold Resolved.andThen
  cases x.error with
  | some e => exact hx
  | none => exact hf x.value hx

theorem length_sweep (f : α → Resolved α) (items : List α) :
    (sweep f items).value.length = items.length := by
  induction items with
  | nil => rfl
  | cons a items ih =>
    rw [sweep]
    cases (f a).error with
    | some e => rfl
    | none => exact congrArg (· + 1) ih

end Resolved

section

variable {α : Type} [Named α] {items : List α}

theorem get?_of_findByName {name : String} {h : Handle} (short : items.length < UInt32.size)
    (found : findByName items name = some h) :
    ∃ a, h.get? items = some a ∧ Named.name a = name := by
  obtain ⟨i, hi, rfl⟩ := Option.map_eq_some_iff.mp found
  obtain ⟨hname, _⟩ := List.findFinIdx?_eq_some_iff.mp hi
  refine ⟨items[i], ?_, by simpa using hname⟩
  rw [Handle.get?, UInt32.toNat_ofNat_of_lt' (by omega), List.getElem?_eq_getElem i.isLt]
  rfl

theorem Link.ensures_resolve {kind scope : String} {l : Link} (short : items.length < UInt32.size) :
    (l.resolve items kind scope).Ensures fun l => l.Names items := by
  unfold Link.resolve
  split
  · next h hfind =>
    obtain ⟨a, hget, hname⟩ := get?_of_findByName short hfind
    exact Resolved.ensures_value ⟨h, a, rfl, hget, hname⟩
  · exact Resolved.ensures_error

theorem ensures_resolveOptional {kind scope : String} (l : Option Link)
    (short : items.length < UInt32.size) :
    (resolveOptional items kind scope l).Ensures fun l => ∀ k ∈ l, k.Names items := by
  cases l with
  | none => exact Resolved.ensures_value (by simp)
  | some l =>
    apply Resolved.Ensures.map
    simpa using Link.ensures_resolve short

/-- Only the names of the definitions count. -/
theorem Link.Names.of_map_name_eq {items' : List α} {l : Link} (h : l.Names items)
    (same : items'.map Named.name = items.map Named.name) : l.Names items' := by
  obtain ⟨k, a, htarget, hget, hname⟩ := h
  have hsame : (k.get? items').map Named.name = (k.get? items).map Named.name := by
    rw [Handle.get?, Handle.get?, ← List.getElem?_map, ← List.getElem?_map, same]
  rw [hget] at hsame
  obtain ⟨a', hget', hname'⟩ := Option.map_eq_some_iff.mp hsame
  exact ⟨k, a', htarget, hget', hname'.trans hname⟩

end

theorem ensures_resolveResources {blocks : List ResourceBlock} {scope : String}
    (l : Option Link) (short : blocks.length < UInt32.size) :
    (resolveResources blocks scope l).Ensures fun l => ∀ k ∈ l, k.Names blocks := by
  cases l with
  | none => exact Resolved.ensures_value (by simp)
  | some l =>
    unfold resolveResources
    simp only
    split
    · exact Resolved.ensures_value (by simp)
    · apply Resolved.Ensures.map
      simpa using Link.ensures_resolve short

/-- The arrays of an effect can be indexed by words. -/
structure Effect.Indexable (e : Effect) : Prop where
  vertexLayouts : e.vertexLayouts.length < UInt32.size
  localResources : e.localResources.length < UInt32.size
  constantBuffers : e.constantBuffers.length < UInt32.size
  uniformBuffers : e.uniformBuffers.length < UInt32.size
  storageBuffers : e.storageBuffers.length < UInt32.size
  renderStates : e.renderStates.length < UInt32.size
  codeFragments : e.codeFragments.length < UInt32.size

/-- A resolved pass refers to definitions that are there, by their names. -/
theorem Pass.ensures_resolve {e : Effect} (p : Pass) (short : e.Indexable) :
    (p.resolve e).Ensures fun p => p.Normal e := by
  unfold Pass.resolve
  -- Each step settles one field and leaves the fields before it alone.
  let one : Pass → Prop := fun p => ∀ l ∈ p.vertexLayout, l.Names e.vertexLayouts
  let two : Pass → Prop := fun p => one p ∧ ∀ l ∈ p.resources, l.Names e.localResources
  let three : Pass → Prop := fun p => two p ∧ ∀ l ∈ p.constantBuffer, l.Names e.constantBuffers
  let four : Pass → Prop := fun p => three p ∧ ∀ l ∈ p.renderState, l.Names e.renderStates
  refine Resolved.ensures_andThen four (Resolved.ensures_andThen three
    (Resolved.ensures_andThen two (Resolved.ensures_andThen one (Resolved.ensures_andThen
      (fun _ => True) (Resolved.ensures_value trivial) ?_) ?_) ?_) ?_) ?_
  · intro p _
    exact (ensures_resolveOptional _ short.vertexLayouts).map
  · intro p hp
    exact Resolved.Ensures.map fun hok =>
      ⟨hp, ensures_resolveResources _ short.localResources hok⟩
  · intro p hp
    exact Resolved.Ensures.map fun hok =>
      ⟨hp, ensures_resolveOptional _ short.constantBuffers hok⟩
  · intro p hp
    exact Resolved.Ensures.map fun hok =>
      ⟨hp, ensures_resolveOptional _ short.renderStates hok⟩
  · rintro p ⟨⟨⟨hlayout, hresources⟩, hbuffer⟩, hstate⟩
    refine (Resolved.ensures_sweep_forall (fun s => s.fragment.Names e.codeFragments)
      fun s _ => (Link.ensures_resolve short.codeFragments).map).imp ?_ |>.map
    intro stages hnames
    exact ⟨hlayout, hresources, hbuffer, hstate, fun s hs => Or.inl (hnames s hs)⟩

/-- A binding that was resolved has the handle of a buffer that is there. -/
theorem ResourceBinding.ensures_bindBuffer {e : Effect} {buffers : List Buffer}
    {kind scope : String} (b : ResourceBinding) (short : buffers.length < UInt32.size)
    (hkind : e.buffersFor b.kind = some buffers) :
    (b.bindBuffer buffers kind scope).Ensures fun b' =>
      b'.BufferInRange e ∧ b'.stages = b.stages := by
  have hrange : ∀ h, findByName buffers b.name = some h → ∀ size,
      ({ b with size := size, buffer := some h } : ResourceBinding).BufferInRange e := by
    intro h hfind size k hk
    cases hk
    obtain ⟨a, hget, _⟩ := get?_of_findByName short hfind
    exact ⟨buffers, hkind, Handle.inRange_iff.mpr ⟨a, hget⟩⟩
  unfold ResourceBinding.bindBuffer
  split
  · exact Resolved.ensures_error
  · next i hindex =>
    have hfind : findByName buffers b.name = some (UInt32.ofNat i) := by
      rw [findByName, hindex]
      rfl
    split
    · exact Resolved.ensures_error
    · split
      · exact Resolved.ensures_value ⟨hrange _ hfind _, rfl⟩
      · split
        · exact Resolved.ensures_value ⟨hrange _ hfind b.size, rfl⟩
        · exact Resolved.ensures_error

theorem ResourceBinding.ensures_resolve {e : Effect} {scope : String} (b : ResourceBinding)
    (short : e.Indexable) : (b.resolve e scope).Ensures fun b' =>
      b'.BufferInRange e ∧ b'.stages = b.stages := by
  unfold ResourceBinding.resolve
  split
  · next hkind => exact b.ensures_bindBuffer short.uniformBuffers (by rw [hkind]; rfl)
  · next hkind => exact b.ensures_bindBuffer short.storageBuffers (by rw [hkind]; rfl)
  · exact Resolved.ensures_value ⟨by simp [ResourceBinding.BufferInRange], rfl⟩

/-- A block after its bindings were resolved. -/
structure ResourceBlock.BoundAs (e : Effect) (before after : ResourceBlock) : Prop where
  name : after.name = before.name
  buffers : ∀ b ∈ after.bindings, b.BufferInRange e
  masks : before.MasksKnown → after.MasksKnown

theorem ResourceBlock.ensures_resolve {e : Effect} (block : ResourceBlock) (short : e.Indexable) :
    (block.resolve e).Ensures (block.BoundAs e) := by
  refine (Resolved.ensures_sweep (fun b b' => b'.BufferInRange e ∧ b'.stages = b.stages)
    fun b _ => b.ensures_resolve short).imp ?_ |>.map
  rintro bindings ⟨g, rfl, hg⟩
  refine ⟨rfl, ?_, ?_⟩
  · intro b' hb'
    obtain ⟨b, hb, rfl⟩ := List.mem_map.mp hb'
    exact (hg b hb).1
  · intro hmasks b' hb'
    obtain ⟨b, hb, rfl⟩ := List.mem_map.mp hb'
    rw [(hg b hb).2]
    exact hmasks b hb

theorem Effect.indexable_of_resolve {e : Effect} (h : e.resolve.value.Indexable) :
    e.Indexable := by
  revert h
  let kept : Effect → Prop := fun r => r.Indexable → e.Indexable
  unfold Effect.resolve
  refine Resolved.andThen_keeps kept (Resolved.andThen_keeps kept (Resolved.andThen_keeps kept
    (Resolved.andThen_keeps kept (fun h => h) ?_) ?_) ?_) fun r hr => hr
  · intro r hr h
    exact hr { h with }
  · intro r hr h
    exact hr { h with localResources := Resolved.length_sweep _ _ ▸ h.localResources }
  · intro r hr h
    exact hr { h with }

section

variable {e : Effect} {passes : List Pass} {g g' : ResourceBlock → ResourceBlock}

/-- An effect with resolved passes and bindings is in normal form. -/
theorem Effect.normal_of_bound (masks : e.MasksKnown) (hpasses : ∀ p ∈ passes, p.Normal e)
    (hlocal : ∀ block ∈ e.localResources, block.BoundAs e (g block))
    (hglobal : ∀ block ∈ e.globalResources, block.BoundAs e (g' block)) :
    Effect.Normal { e with
      passes
      localResources := e.localResources.map g
      globalResources := e.globalResources.map g' } := by
  have hnames : (e.localResources.map g).map Named.name = e.localResources.map Named.name := by
    rw [List.map_map]
    exact List.map_congr_left fun block hblock => (hlocal block hblock).name
  refine ⟨{ masks with localResources := ?_, globalResources := ?_ }, ?_, ?_⟩
  · intro block' hblock'
    obtain ⟨block, hblock, rfl⟩ := List.mem_map.mp hblock'
    exact (hlocal block hblock).masks (masks.localResources block hblock)
  · intro block' hblock'
    obtain ⟨block, hblock, rfl⟩ := List.mem_map.mp hblock'
    exact (hglobal block hblock).masks (masks.globalResources block hblock)
  · intro block' hblock'
    rcases List.mem_append.mp hblock' with hmem | hmem
    · obtain ⟨block, hblock, rfl⟩ := List.mem_map.mp hmem
      exact (hlocal block hblock).buffers
    · obtain ⟨block, hblock, rfl⟩ := List.mem_map.mp hmem
      exact (hglobal block hblock).buffers
  · intro p hp
    exact { hpasses p hp with
      resources := fun l hl => ((hpasses p hp).resources l hl).of_map_name_eq hnames }

end

/-- When no reference fails and no array is too long, an effect loses nothing in an artifact. -/
theorem Effect.ensures_resolve (e : Effect) (short : e.Indexable) (masks : e.MasksKnown) :
    e.resolve.Ensures Effect.Normal := by
  unfold Effect.resolve
  -- The passes are resolved against the blocks as they were; of those only the names matter.
  let one : Effect → Prop := fun r => ∃ passes, r = { e with passes } ∧ ∀ p ∈ passes, p.Normal e
  let two : Effect → Prop := fun r => ∃ passes g,
    r = { e with passes, localResources := e.localResources.map g } ∧
      (∀ p ∈ passes, p.Normal e) ∧ ∀ block ∈ e.localResources, block.BoundAs e (g block)
  refine Resolved.ensures_andThen Effect.Normal (Resolved.ensures_andThen two
    (Resolved.ensures_andThen one (Resolved.ensures_andThen (fun r => r = e)
      (Resolved.ensures_value rfl) ?_) ?_) ?_) fun r hr => Resolved.ensures_value hr
  · rintro r rfl
    refine (Resolved.ensures_sweep_forall (Pass.Normal r)
      fun p _ => p.ensures_resolve short).imp ?_ |>.map
    intro passes hpasses
    exact ⟨passes, rfl, hpasses⟩
  · rintro r ⟨passes, rfl, hpasses⟩
    refine (Resolved.ensures_sweep (ResourceBlock.BoundAs e) ?_).imp ?_ |>.map
    · exact fun block _ => block.ensures_resolve short
    · rintro blocks ⟨g, rfl, hlocal⟩
      exact ⟨passes, g, rfl, hpasses, hlocal⟩
  · rintro r ⟨passes, g, rfl, hpasses, hlocal⟩
    refine (Resolved.ensures_sweep (ResourceBlock.BoundAs e) ?_).imp ?_ |>.map
    · exact fun block _ => block.ensures_resolve short
    · rintro blocks ⟨g', rfl, hglobal⟩
      exact Effect.normal_of_bound masks hpasses hlocal hglobal

end Kfx
