import Mathlib.Data.List.Forall2
import Kfx.Resolution
import Kfx.Proofs.Effect.BufferSize
import Kfx.Proofs.Resolution.Links

/-!
# Resolution as a decision

An effect has a list of requirements, one for each reference, in the order in which they are looked
at. Resolution fails with the first of them that is violated; if none is, every reference has become
the index of the first definition with its name. The requirements do not speak of handles, so those
an effect already has make no difference.
-/
namespace Kfx

/-- `a` is the first of some definitions with the given name, at index `n`. -/
def FirstNamed {α : Type} [Named α] (items : List α) (name : String) (n : Nat) (a : α) : Prop :=
  items[n]? = some a ∧ Named.name a = name ∧ ∀ b ∈ items.take n, Named.name b ≠ name

section

variable {α : Type} [Named α] {items : List α} {name : String}

/-- Looking for a name finds its first definition or, if it has none, nothing. -/
theorem firstNamed_or_missing (items : List α) (name : String) :
    (∃ i : Fin items.length, FirstNamed items name i items[i] ∧ indexOf? items name = some i ∧
        items.find? (fun b => Named.name b == name) = some items[i]) ∨
      (name ∉ items.map Named.name ∧ indexOf? items name = none ∧
        items.find? (fun b => Named.name b == name) = none) := by
  cases hfind : indexOf? items name with
  | none =>
    have hnone := List.findFinIdx?_eq_none_iff.mp hfind
    refine Or.inr ⟨?_, rfl, List.find?_eq_none.mpr hnone⟩
    intro hmem
    obtain ⟨a, ha, haname⟩ := List.mem_map.mp hmem
    exact hnone a ha (by simp [haname])
  | some i =>
    obtain ⟨hname, hbefore⟩ := List.findFinIdx?_eq_some_iff.mp hfind
    refine Or.inl ⟨i, ⟨List.getElem?_eq_getElem i.isLt, by simpa using hname, ?_⟩, rfl, ?_⟩
    · intro b hb
      obtain ⟨m, hm, rfl⟩ := List.mem_take_iff_getElem.mp hb
      have hlt : m < i := by omega
      exact fun hsame => hbefore ⟨m, by omega⟩ hlt (by simpa using hsame)
    · refine List.find?_eq_some_iff_getElem.mpr ⟨hname, i, i.isLt, rfl, ?_⟩
      intro m hm
      simpa using hbefore ⟨m, by omega⟩ hm

theorem FirstNamed.mem {n : Nat} {a : α} (h : FirstNamed items name n a) :
    name ∈ items.map Named.name :=
  List.mem_map.mpr ⟨a, List.mem_of_getElem? h.1, h.2.1⟩

/-- Only one definition of a name is the first. -/
theorem FirstNamed.unique {n m : Nat} {a b : α} (h : FirstNamed items name n a)
    (h' : FirstNamed items name m b) : n = m ∧ a = b := by
  have hle : ∀ {n m : Nat} {a b : α}, FirstNamed items name n a → FirstNamed items name m b →
      m ≤ n := by
    intro n m a b h h'
    by_cases hlt : n < m
    · have hmem : a ∈ items.take m := by
        obtain ⟨hn, hget⟩ := List.getElem?_eq_some_iff.mp h.1
        exact List.mem_take_iff_getElem.mpr ⟨n, by omega, hget⟩
      exact absurd h.2.1 (h'.2.2 a hmem)
    · omega
  have hnm : n = m := Nat.le_antisymm (hle h' h) (hle h h')
  subst hnm
  exact ⟨rfl, Option.some.inj (h.1.symm.trans h'.1)⟩

end

/-- A reference of an effect, said in the scope `scope`: to one of some names, or from a binding to
one of some buffers. -/
inductive Requirement
  | named (kind : String) (names : List String) (name scope : String)
  | bound (kind : String) (buffers : List Buffer) (binding : ResourceBinding) (scope : String)

/-- What is wrong with the size of a buffer that a binding is to bind, if something is. Sizes are
compared as exact numbers. -/
def ResourceBinding.sizeViolation? (b : ResourceBinding) (buffer : Buffer) : Option ResolveError :=
  if UInt32.size ≤ buffer.exactSize then some (.tooLarge b.name)
  else
    match b.size with
    | none => none
    | some declared =>
      if declared.toNat = buffer.exactSize then none
      else some (.sizeMismatch b.name declared (UInt32.ofNat buffer.exactSize))

/-- What is wrong with a reference, if something is. -/
def Requirement.violation? : Requirement → Option ResolveError
  | named kind names name scope =>
    if name ∈ names then none else some (.unresolved kind name scope)
  | bound kind buffers b scope =>
    match buffers.find? fun x => Named.name x == b.name with
    | none => some (.unresolved kind b.name scope)
    | some buffer => b.sizeViolation? buffer

def firstViolation (requirements : List Requirement) : Option ResolveError :=
  requirements.findSome? Requirement.violation?

def Link.requirement {α : Type} [Named α] (items : List α) (kind scope : String) (l : Link) :
    Requirement :=
  .named kind (items.map Named.name) l.name scope

/-- The references of a pass. Its resources are not looked for where there is no local block. -/
def Pass.requirements (e : Effect) (p : Pass) : List Requirement :=
  p.vertexLayout.toList.map (Link.requirement e.vertexLayouts "vertex layout" p.name) ++
  (if e.localResources.isEmpty then []
    else p.resources.toList.map (Link.requirement e.localResources "resource block" p.name)) ++
  p.constantBuffer.toList.map (Link.requirement e.constantBuffers "constant buffer" p.name) ++
  p.renderState.toList.map (Link.requirement e.renderStates "render state" p.name) ++
  p.stages.map fun s => s.fragment.requirement e.codeFragments "GLSL fragment" p.name

def ResourceBinding.requirements (e : Effect) (scope : String) (b : ResourceBinding) :
    List Requirement :=
  match b.kind with
  | .uniformBuffer => [.bound "uniform buffer" e.uniformBuffers b scope]
  | .storageBuffer => [.bound "storage buffer" e.storageBuffers b scope]
  | .sampler => []

def ResourceBlock.requirements (e : Effect) (block : ResourceBlock) : List Requirement :=
  block.bindings.flatMap (ResourceBinding.requirements e block.name)

/-- All references in order: those of the passes, then those of local and of global blocks. -/
def Effect.requirements (e : Effect) : List Requirement :=
  e.passes.flatMap (Pass.requirements e) ++
  e.localResources.flatMap (ResourceBlock.requirements e) ++
  e.globalResources.flatMap (ResourceBlock.requirements e)

/-- The link after it was resolved: its target is the index, cut to a word, of the first definition
with its name. -/
def Link.ResolvedAs {α : Type} [Named α] (items : List α) (before after : Link) : Prop :=
  ∃ n a, FirstNamed items before.name n a ∧
    after = { before with target := some (UInt32.ofNat n) }

structure Stage.ResolvedAs (e : Effect) (before after : Stage) : Prop where
  fragment : before.fragment.ResolvedAs e.codeFragments after.fragment
  rest : after = { before with fragment := after.fragment }

/-- The pass after it was resolved. A reference to resources is dropped exactly when there is no
local block. -/
structure Pass.ResolvedAs (e : Effect) (before after : Pass) : Prop where
  vertexLayout :
    Option.Rel (Link.ResolvedAs e.vertexLayouts) before.vertexLayout after.vertexLayout
  resources : e.localResources ≠ [] →
    Option.Rel (Link.ResolvedAs e.localResources) before.resources after.resources
  dropped : e.localResources = [] → after.resources = none
  constantBuffer :
    Option.Rel (Link.ResolvedAs e.constantBuffers) before.constantBuffer after.constantBuffer
  renderState : Option.Rel (Link.ResolvedAs e.renderStates) before.renderState after.renderState
  stages : List.Forall₂ (Stage.ResolvedAs e) before.stages after.stages
  name : after.name = before.name

/-- The binding after it was resolved. Of a buffer it has the index and the exact size. -/
def ResourceBinding.ResolvedAs (e : Effect) (before after : ResourceBinding) : Prop :=
  match e.buffersFor before.kind with
  | none => after = { before with buffer := none }
  | some buffers => ∃ n x size, FirstNamed buffers before.name n x ∧
      size.toNat = x.exactSize ∧
      after = { before with size := some size, buffer := some (UInt32.ofNat n) }

structure ResourceBlock.ResolvedAs (e : Effect) (before after : ResourceBlock) : Prop where
  bindings : List.Forall₂ (ResourceBinding.ResolvedAs e) before.bindings after.bindings
  name : after.name = before.name

structure Effect.ResolvedAs (before after : Effect) : Prop where
  passes : List.Forall₂ (Pass.ResolvedAs before) before.passes after.passes
  localResources :
    List.Forall₂ (ResourceBlock.ResolvedAs before) before.localResources after.localResources
  globalResources :
    List.Forall₂ (ResourceBlock.ResolvedAs before) before.globalResources after.globalResources
  rest : after = { before with
    passes := after.passes
    localResources := after.localResources
    globalResources := after.globalResources }

namespace Resolved

variable {α β : Type} {reqs reqs' : List Requirement} {post : α → Prop} {post' : β → Prop}

/-- A step of resolution fails with the first violation among some requirements, and otherwise
leaves behind what has a property. -/
structure Settles (x : Resolved α) (reqs : List Requirement) (post : α → Prop) : Prop where
  error : x.error = firstViolation reqs
  value : x.Ensures post

theorem settles_value {a : α} {log : Log} (h : post a) : Settles { value := a, log } [] post :=
  ⟨rfl, ensures_value h⟩

theorem Settles.imp {x : Resolved α} {weaker : α → Prop} (h : Settles x reqs post)
    (himp : ∀ a, post a → weaker a) : Settles x reqs weaker :=
  ⟨h.error, h.value.imp himp⟩

theorem Settles.map {x : Resolved α} {f : α → β} (h : Settles x reqs fun a => post' (f a)) :
    Settles (x.map f) reqs post' :=
  ⟨h.error, h.value.map⟩

theorem firstViolation_append (reqs reqs' : List Requirement) :
    firstViolation (reqs ++ reqs') = (firstViolation reqs).or (firstViolation reqs') :=
  List.findSome?_append

/-- One step after another: the requirements of the second count where the first did not fail. -/
theorem Settles.andThen (middle : α → Prop) {x : Resolved α} {f : α → Resolved α}
    (hx : Settles x reqs middle) (hf : ∀ a, middle a → Settles (f a) reqs' post) :
    Settles (x.andThen f) (reqs ++ reqs') post := by
  refine ⟨?_, ensures_andThen middle hx.value fun a ha => (hf a ha).value⟩
  rw [firstViolation_append, ← hx.error]
  unfold Resolved.andThen
  cases herror : x.error with
  | some err => exact herror
  | none => exact (hf x.value (hx.value herror)).error

/-- Elements in order, each with requirements of its own. -/
theorem settles_sweep {relation : α → α → Prop} {req : α → List Requirement}
    {f : α → Resolved α} {items : List α}
    (each : ∀ a ∈ items, Settles (f a) (req a) (relation a)) :
    Settles (sweep f items) (items.flatMap req) (List.Forall₂ relation items) := by
  induction items with
  | nil => exact settles_value .nil
  | cons a items ih =>
    obtain ⟨hfirst, hitems⟩ := List.forall_mem_cons.mp each
    have hrest := ih hitems
    constructor
    · rw [List.flatMap_cons, firstViolation_append, ← hfirst.error, sweep]
      cases (f a).error with
      | some err => rfl
      | none => exact hrest.error
    · intro hok
      rw [sweep] at hok ⊢
      cases herror : (f a).error with
      | some err =>
        rw [herror] at hok
        cases hok
      | none =>
        rw [herror] at hok
        exact .cons (hfirst.value herror) (hrest.value hok)

end Resolved

open Resolved

section

variable {α : Type} [Named α] {items : List α} {kind scope : String}

theorem Link.settles_resolve (l : Link) :
    (l.resolve items kind scope).Settles [l.requirement items kind scope]
      (l.ResolvedAs items) := by
  unfold Link.resolve
  rcases firstNamed_or_missing items l.name with
    ⟨i, hfirst, hfind, _⟩ | ⟨hmissing, hfind, _⟩
  · rw [findByName, hfind]
    have hmet : (l.requirement items kind scope).violation? = none := if_pos hfirst.mem
    exact ⟨by simp [firstViolation, hmet], ensures_value ⟨i, items[i], hfirst, rfl⟩⟩
  · rw [findByName, hfind]
    have hviolated : (l.requirement items kind scope).violation? =
        some (.unresolved kind l.name scope) := if_neg hmissing
    exact ⟨by simp [firstViolation, hviolated], ensures_error⟩

theorem settles_resolveOptional (l : Option Link) :
    (resolveOptional items kind scope l).Settles
      (l.toList.map (Link.requirement items kind scope))
      (Option.Rel (Link.ResolvedAs items) l) := by
  cases l with
  | none => exact settles_value .none
  | some l => exact (l.settles_resolve.imp fun _ h => .some h).map

end

theorem settles_resolveResources {blocks : List ResourceBlock} {scope : String}
    (l : Option Link) :
    (resolveResources blocks scope l).Settles
      (if blocks.isEmpty then [] else l.toList.map (Link.requirement blocks "resource block" scope))
      fun l' => (blocks ≠ [] → Option.Rel (Link.ResolvedAs blocks) l l') ∧
        (blocks = [] → l' = none) := by
  cases l with
  | none =>
    have hempty : (if blocks.isEmpty then []
        else (none : Option Link).toList.map
          (Link.requirement blocks "resource block" scope)) = [] := by simp
    rw [hempty]
    exact settles_value ⟨fun _ => .none, fun _ => rfl⟩
  | some l =>
    cases blocks with
    | nil => exact settles_value ⟨fun h => absurd rfl h, fun _ => rfl⟩
    | cons block blocks =>
      refine Settles.map (l.settles_resolve.imp fun l' h => ⟨fun _ => .some h, ?_⟩)
      intro hnil
      cases hnil

theorem Stage.settles_resolve (e : Effect) (scope : String) (s : Stage) :
    ((s.fragment.resolve e.codeFragments "GLSL fragment" scope).map fun l =>
      { s with fragment := l }).Settles
        [s.fragment.requirement e.codeFragments "GLSL fragment" scope] (s.ResolvedAs e) :=
  (s.fragment.settles_resolve.imp fun _ h => ⟨h, rfl⟩).map

/-- A pass is resolved reference by reference, up to the first that is violated. -/
theorem Pass.settles_resolve (e : Effect) (p : Pass) :
    (p.resolve e).Settles (p.requirements e) (p.ResolvedAs e) := by
  -- Each step settles one field and leaves the others as they were.
  let layoutRel := Option.Rel (Link.ResolvedAs e.vertexLayouts) p.vertexLayout
  let resourcesRel : Option Link → Prop := fun l =>
    (e.localResources ≠ [] → Option.Rel (Link.ResolvedAs e.localResources) p.resources l) ∧
      (e.localResources = [] → l = none)
  let bufferRel := Option.Rel (Link.ResolvedAs e.constantBuffers) p.constantBuffer
  let stateRel := Option.Rel (Link.ResolvedAs e.renderStates) p.renderState
  let one : Pass → Prop := fun q => ∃ v, layoutRel v ∧ q = { p with vertexLayout := v }
  let two : Pass → Prop := fun q => ∃ v r, layoutRel v ∧ resourcesRel r ∧
    q = { p with vertexLayout := v, resources := r }
  let three : Pass → Prop := fun q => ∃ v r c, layoutRel v ∧ resourcesRel r ∧ bufferRel c ∧
    q = { p with vertexLayout := v, resources := r, constantBuffer := c }
  let four : Pass → Prop := fun q => ∃ v r c t, layoutRel v ∧ resourcesRel r ∧ bufferRel c ∧
    stateRel t ∧
    q = { p with vertexLayout := v, resources := r, constantBuffer := c, renderState := t }
  have hstart : Settles { value := p } [] (· = p) := settles_value rfl
  unfold Pass.resolve Pass.requirements
  refine Settles.andThen four (Settles.andThen three (Settles.andThen two (Settles.andThen one
    (Settles.andThen _ hstart ?_) ?_) ?_) ?_) ?_
  · rintro q rfl
    exact ((settles_resolveOptional _).imp fun v hv => ⟨v, hv, rfl⟩).map
  · rintro q ⟨v, hv, rfl⟩
    exact ((settles_resolveResources _).imp fun r hr => ⟨v, r, hv, hr, rfl⟩).map
  · rintro q ⟨v, r, hv, hr, rfl⟩
    exact ((settles_resolveOptional _).imp fun c hc => ⟨v, r, c, hv, hr, hc, rfl⟩).map
  · rintro q ⟨v, r, c, hv, hr, hc, rfl⟩
    exact ((settles_resolveOptional _).imp fun t ht => ⟨v, r, c, t, hv, hr, hc, ht, rfl⟩).map
  · rintro q ⟨v, r, c, t, hv, hr, hc, ht, rfl⟩
    have hstages := settles_sweep fun s (_ : s ∈ p.stages) => s.settles_resolve e p.name
    rw [← List.map_eq_flatMap] at hstages
    exact (hstages.imp fun stages h => ⟨hv, hr.1, hr.2, hc, ht, h, rfl⟩).map

/-- A buffer is bound just where its one requirement is met. -/
theorem ResourceBinding.settles_bindBuffer {e : Effect} {buffers : List Buffer}
    {kind scope : String} (b : ResourceBinding) (hkind : e.buffersFor b.kind = some buffers) :
    (b.bindBuffer buffers kind scope).Settles [.bound kind buffers b scope] (b.ResolvedAs e) := by
  have hsingle : firstViolation [.bound kind buffers b scope] =
      (Requirement.bound kind buffers b scope).violation? := by
    simp [firstViolation]
  unfold ResourceBinding.bindBuffer
  rcases firstNamed_or_missing buffers b.name with ⟨i, hfirst, hfind, hget⟩ | ⟨_, hfind, hget⟩
  · rw [hfind]
    dsimp only
    generalize buffers[i] = x at hfirst hget ⊢
    have hname : x.name = b.name := hfirst.2.1
    have hresolved : ∀ size : UInt32, size.toNat = x.exactSize →
        b.ResolvedAs e { b with size := some size, buffer := some (UInt32.ofNat i) } := by
      intro size hsize
      rw [ResourceBinding.ResolvedAs, hkind]
      exact ⟨i, x, size, hfirst, hsize, rfl⟩
    have hviolation : firstViolation [.bound kind buffers b scope] = b.sizeViolation? x := by
      rw [hsingle, Requirement.violation?, hget]
    simp only [x.size_eq]
    cases hsize : word? x.exactSize with
    | none =>
      refine ⟨?_, ensures_error⟩
      rw [hviolation, sizeViolation?, if_pos (word?_eq_none.mp hsize), hname]
    | some computed =>
      have hexact : computed.toNat = x.exactSize := word?_eq_some.mp hsize
      have hword : UInt32.ofNat x.exactSize = computed := by rw [← hexact, UInt32.ofNat_toNat]
      have hsmall : ¬ UInt32.size ≤ x.exactSize := by
        have := computed.toNat_lt_size
        omega
      rw [sizeViolation?, if_neg hsmall, hword] at hviolation
      cases hdeclared : b.size with
      | none =>
        rw [hdeclared] at hviolation
        exact ⟨hviolation.symm, ensures_value (hresolved computed hexact)⟩
      | some declared =>
        rw [hdeclared] at hviolation
        dsimp only at hviolation ⊢
        by_cases hsame : declared = computed
        · rw [if_pos (hsame ▸ hexact)] at hviolation
          rw [if_pos hsame]
          have hkept := hresolved computed hexact
          rw [← hsame] at hkept
          exact ⟨hviolation.symm, ensures_value hkept⟩
        · have hdiffer : declared.toNat ≠ x.exactSize :=
            fun h => hsame (UInt32.toNat_inj.mp (h.trans hexact.symm))
          rw [if_neg hdiffer] at hviolation
          rw [if_neg hsame]
          exact ⟨by rw [hviolation, hname], ensures_error⟩
  · have hviolation : firstViolation [.bound kind buffers b scope] =
        some (.unresolved kind b.name scope) := by
      rw [hsingle, Requirement.violation?, hget]
    rw [hfind]
    exact ⟨hviolation.symm, ensures_error⟩

theorem ResourceBinding.settles_resolve (e : Effect) (scope : String) (b : ResourceBinding) :
    (b.resolve e scope).Settles (b.requirements e scope) (b.ResolvedAs e) := by
  unfold ResourceBinding.resolve ResourceBinding.requirements
  cases hkind : b.kind with
  | uniformBuffer => exact b.settles_bindBuffer (by rw [hkind]; rfl)
  | storageBuffer => exact b.settles_bindBuffer (by rw [hkind]; rfl)
  | sampler =>
    refine settles_value ?_
    rw [ResourceBinding.ResolvedAs, hkind]
    rfl

theorem ResourceBlock.settles_resolve (e : Effect) (block : ResourceBlock) :
    (block.resolve e).Settles (block.requirements e) (block.ResolvedAs e) :=
  ((settles_sweep fun b _ => b.settles_resolve e block.name).imp fun _ h => ⟨h, rfl⟩).map

/-- Resolution fails with the first violation and otherwise resolves every reference. -/
theorem Effect.settles_resolve (e : Effect) :
    e.resolve.Settles e.requirements e.ResolvedAs := by
  -- The steps change no definition that a later one looks at.
  let passesRel := List.Forall₂ (Pass.ResolvedAs e) e.passes
  let localRel := List.Forall₂ (ResourceBlock.ResolvedAs e) e.localResources
  let one : Effect → Prop := fun r => ∃ passes, passesRel passes ∧ r = { e with passes }
  let two : Effect → Prop := fun r => ∃ passes blocks, passesRel passes ∧ localRel blocks ∧
    r = { e with passes, localResources := blocks }
  have hstart : Settles { value := e } [] (· = e) := settles_value rfl
  have hresolved : e.resolve.Settles (e.requirements ++ []) e.ResolvedAs := by
    unfold Effect.resolve
    refine Settles.andThen e.ResolvedAs (Settles.andThen two (Settles.andThen one
      (Settles.andThen _ hstart ?_) ?_) ?_) ?_
    · rintro r rfl
      exact ((settles_sweep fun p _ => p.settles_resolve r).imp fun ps h => ⟨ps, h, rfl⟩).map
    · rintro r ⟨passes, hpasses, rfl⟩
      exact ((settles_sweep fun block _ => block.settles_resolve e).imp
        fun blocks h => ⟨passes, blocks, hpasses, h, rfl⟩).map
    · rintro r ⟨passes, blocks, hpasses, hblocks, rfl⟩
      exact ((settles_sweep fun block _ => block.settles_resolve e).imp
        fun others h => ⟨hpasses, hblocks, h, rfl⟩).map
    · intro r hr
      exact settles_value hr
  rw [List.append_nil] at hresolved
  exact hresolved

end Kfx
