import Kfx.Difference
import Kfx.Proofs.Artifact.RoundTrip

/-!
# Effects without a difference

What a comparison without a difference says. Every part of an effect is compared but one: of the
code of a stage only the name is looked at, not the place. So effects without a difference are equal
up to those places, and equal artifacts need the places to agree as well.
-/
namespace Kfx

/-- The stage without the place of its code. -/
def Stage.placeless (s : Stage) : Stage :=
  { s with fragment := { s.fragment with target := none } }

def Pass.placeless (p : Pass) : Pass :=
  { p with stages := p.stages.map Stage.placeless }

/-- What a comparison sees of an effect. -/
def Effect.placeless (e : Effect) : Effect :=
  { e with passes := e.passes.map Pass.placeless }

def Pass.codeTargets (p : Pass) : List (Option Handle) :=
  p.stages.map fun s => s.fragment.target

/-- Where the code of each stage of each pass is. -/
def Effect.codeTargets (e : Effect) : List (List (Option Handle)) :=
  e.passes.map Pass.codeTargets

/-- Lists agree when two views that tell their elements apart do. -/
theorem eq_of_map_eq {α β γ : Type} {f : α → β} {g : α → γ} {as bs : List α}
    (separates : ∀ a ∈ as, ∀ b ∈ bs, f a = f b → g a = g b → a = b)
    (hf : as.map f = bs.map f) (hg : as.map g = bs.map g) : as = bs := by
  induction as generalizing bs with
  | nil =>
    cases bs with
    | nil => rfl
    | cons b bs => simp at hf
  | cons a as ih =>
    cases bs with
    | nil => simp at hf
    | cons b bs =>
      simp only [List.map_cons, List.cons.injEq] at hf hg
      have hhead : a = b := separates a (by simp) b (by simp) hf.1 hg.1
      have htail : as = bs := by
        refine ih (fun x hx y hy => ?_) hf.2 hg.2
        exact separates x (List.mem_cons_of_mem a hx) y (List.mem_cons_of_mem b hy)
      rw [hhead, htail]

/-- A stage is what is compared of it together with the place of its code. -/
theorem Stage.eq_of_placeless {a b : Stage} (same : a.placeless = b.placeless)
    (placed : a.fragment.target = b.fragment.target) : a = b := by
  obtain ⟨akind, ⟨aname, atarget⟩, acode⟩ := a
  obtain ⟨bkind, ⟨bname, btarget⟩, bcode⟩ := b
  simp only [Stage.placeless, Stage.mk.injEq, Link.mk.injEq, and_true] at same
  obtain ⟨hkind, hname, hcode⟩ := same
  subst hkind hname hcode placed
  rfl

theorem Pass.eq_of_placeless {a b : Pass} (same : a.placeless = b.placeless)
    (placed : a.codeTargets = b.codeTargets) : a = b := by
  obtain ⟨aname, alayout, aresources, abuffer, astate, astages⟩ := a
  obtain ⟨bname, blayout, bresources, bbuffer, bstate, bstages⟩ := b
  simp only [Pass.placeless, Pass.mk.injEq] at same
  obtain ⟨hname, hlayout, hresources, hbuffer, hstate, hstages⟩ := same
  have hall : astages = bstages := by
    refine eq_of_map_eq (fun s _ t _ => ?_) hstages placed
    exact Stage.eq_of_placeless
  subst hname hlayout hresources hbuffer hstate hall
  rfl

theorem Effect.eq_of_placeless {a b : Effect} (same : a.placeless = b.placeless)
    (placed : a.codeTargets = b.codeTargets) : a = b := by
  have hpasses : a.passes = b.passes := by
    refine eq_of_map_eq (fun p _ q _ => ?_) (congrArg Effect.passes same) placed
    exact Pass.eq_of_placeless
  obtain ⟨⟩ := a
  obtain ⟨⟩ := b
  simp only [Effect.placeless, Effect.mk.injEq] at same hpasses ⊢
  obtain ⟨h1, h2, h3, h4, h5, h6, h7, h8, h9, _, h10⟩ := same
  exact ⟨h1, h2, h3, h4, h5, h6, h7, h8, h9, hpasses, h10⟩

namespace Difference

variable {α β : Type}

/-- The comparison finds no difference exactly between values that look the same through `view`. -/
def Sees (diff : String → α → α → Option Difference) (view : α → β) : Prop :=
  ∀ path a b, diff path a b = none ↔ view a = view b

@[simp] theorem ofValues_eq_none [DecidableEq α] [Shown α] {path : String} {a b : α} :
    ofValues path a b = none ↔ a = b := by
  unfold ofValues
  split <;> simp_all

theorem ofElements_eq_none {path : String} {diff : String → α → α → Option Difference}
    {view : α → β} (sees : Sees diff view) {i : Nat} {as bs : List α}
    (length : as.length = bs.length) :
    ofElements path diff i as bs = none ↔ as.map view = bs.map view := by
  induction as generalizing i bs with
  | nil =>
    cases bs with
    | nil => simp [ofElements]
    | cons b bs => simp at length
  | cons a as ih =>
    cases bs with
    | nil => simp at length
    | cons b bs =>
      have hrest := ih (i := i + 1) (Nat.succ.inj length)
      rw [ofElements, Option.orElse_eq_or, Option.or_eq_none_iff, sees _ a b, hrest, List.map_cons,
        List.map_cons, List.cons.injEq]

/-- Arrays of one length are compared element by element, and arrays of two lengths differ. -/
theorem ofArrays_eq_none {path : String} {diff : String → α → α → Option Difference}
    {view : α → β} (sees : Sees diff view) {as bs : List α} :
    ofArrays path diff as bs = none ↔ as.map view = bs.map view := by
  rw [ofArrays, Option.orElse_eq_or, Option.or_eq_none_iff, ofValues_eq_none]
  constructor
  · rintro ⟨hlength, helements⟩
    exact (ofElements_eq_none sees hlength).mp helements
  · intro hview
    have hlength : as.length = bs.length := by simpa using congrArg List.length hview
    exact ⟨hlength, (ofElements_eq_none sees hlength).mpr hview⟩

/-- The same for elements that are compared as a whole. -/
theorem ofArrays_eq_none_of_whole {path : String} {diff : String → α → α → Option Difference}
    (sees : Sees diff id) {as bs : List α} : ofArrays path diff as bs = none ↔ as = bs := by
  rw [ofArrays_eq_none sees, List.map_id, List.map_id]

theorem first_eq_none {ds : List (Unit → Option Difference)} :
    first ds = none ↔ ∀ d ∈ ds, d () = none :=
  List.findSome?_eq_none_iff

theorem sees_attributes : Sees ofAttributes id := by
  rintro path ⟨⟩ ⟨⟩
  simp [ofAttributes, first_eq_none]

theorem sees_vertexBindings : Sees ofVertexBindings id := by
  rintro path ⟨⟩ ⟨⟩
  simp [ofVertexBindings, first_eq_none]

theorem sees_vertexLayouts : Sees ofVertexLayouts id := by
  rintro path ⟨⟩ ⟨⟩
  simp [ofVertexLayouts, first_eq_none, ofArrays_eq_none_of_whole sees_attributes,
    ofArrays_eq_none_of_whole sees_vertexBindings]

theorem bufferIndex_map_eq {a b : Option Handle} :
    a.map BufferIndex.mk = b.map BufferIndex.mk ↔ a = b :=
  (Option.map_injective fun _ _ h => BufferIndex.mk.inj h).eq_iff

theorem sees_bindings : Sees ofBindings id := by
  rintro path ⟨⟩ ⟨⟩
  simp [ofBindings, first_eq_none, bufferIndex_map_eq]

theorem sees_blocks : Sees ofBlocks id := by
  rintro path ⟨⟩ ⟨⟩
  simp [ofBlocks, first_eq_none, ofArrays_eq_none_of_whole sees_bindings]

theorem sees_fields : Sees ofFields id := by
  rintro path ⟨⟩ ⟨⟩
  simp [ofFields, first_eq_none]

theorem sees_buffers : Sees ofBuffers id := by
  rintro path ⟨⟩ ⟨⟩
  simp [ofBuffers, first_eq_none, ofArrays_eq_none_of_whole sees_fields]

theorem sees_blendModes : Sees ofBlendModes id := by
  rintro path ⟨⟩ ⟨⟩
  simp [ofBlendModes, first_eq_none]

theorem sees_renderStates : Sees ofRenderStates id := by
  rintro path ⟨⟩ ⟨⟩
  simp [ofRenderStates, first_eq_none, sees_blendModes _ _ _]

theorem sees_fragments : Sees ofFragments id := by
  rintro path ⟨⟩ ⟨⟩
  simp [ofFragments, first_eq_none]

/-- A reference is its name and its target, and one that is missing has neither. -/
theorem sees_links : Sees ofLinks id := by
  rintro path (_ | ⟨_, _⟩) (_ | ⟨_, _⟩) <;> simp [ofLinks, first_eq_none]

theorem sees_stages : Sees ofStages Stage.placeless := by
  rintro path ⟨⟩ ⟨⟩
  simp [ofStages, first_eq_none, Stage.placeless]

theorem sees_passes : Sees ofPasses Pass.placeless := by
  rintro path ⟨⟩ ⟨⟩
  simp [ofPasses, first_eq_none, sees_links _ _ _, ofArrays_eq_none sees_stages, Pass.placeless]

end Difference

open Difference in
/-- A comparison sees everything but where the code of stages is. -/
theorem Effect.difference?_eq_none {a b : Effect} :
    a.difference? b = none ↔ a.placeless = b.placeless := by
  obtain ⟨⟩ := a
  obtain ⟨⟩ := b
  simp [Effect.difference?, first_eq_none, ofArrays_eq_none_of_whole sees_vertexLayouts,
    ofArrays_eq_none_of_whole sees_blocks, ofArrays_eq_none_of_whole sees_buffers,
    ofArrays_eq_none_of_whole sees_renderStates, ofArrays_eq_none_of_whole sees_fragments,
    ofArrays_eq_none sees_passes, Effect.placeless]
  intros
  exact and_comm

namespace Codec

variable {α β : Type}

/-- What is written in front of a value has no part in telling values apart. -/
theorem seq_write_cancel {c : Codec α} {d : Codec β} {a : α} {b b' : β} {bytes : List UInt8}
    (written : (c.seq d).write (a, b) = .ok bytes)
    (written' : (c.seq d).write (a, b') = .ok bytes) :
    ∃ rest, d.write b = .ok rest ∧ d.write b' = .ok rest := by
  obtain ⟨front, rest, hfront, hrest, hbytes⟩ := append_eq_ok.mp written
  obtain ⟨front', rest', hfront', hrest', hbytes'⟩ := append_eq_ok.mp written'
  have hsame : front = front' := Except.ok.inj (hfront.symm.trans hfront')
  rw [hbytes, ← hsame, List.append_cancel_left_eq] at hbytes'
  exact ⟨rest, hrest, hbytes' ▸ hrest'⟩

/-- Values that can be read back are told apart by their bytes, as far as they are kept. -/
theorem Law.stored_eq {c : Codec α} {fits known : α → Prop} {stored : α → α}
    (law : c.Law fits known stored) {a b : α} (ha : known a) (hb : known b) {bytes : List UInt8}
    (written : c.write a = .ok bytes) (written' : c.write b = .ok bytes) : stored a = stored b := by
  have hadvances : Input.Advances ⟨0, bytes⟩ bytes ⟨0 + bytes.length, []⟩ :=
    ⟨(List.append_nil bytes).symm, rfl⟩
  have hread := law.reads written ha hadvances
  rw [law.reads written' hb hadvances] at hread
  exact (congrArg Prod.fst (Except.ok.inj hread)).symm

end Codec

theorem Pass.codeTargets_stored (p : Pass) : p.stored.codeTargets = p.codeTargets := by
  simp [Pass.codeTargets, Pass.stored, Stage.stored]

open Codec in
/-- Two effects that differ in their passes only: equal artifacts place the code of stages alike. -/
theorem Artifact.codeTargets_eq_of_write {a : Effect} {passes : List Pass} {bytes : List UInt8}
    (written : Artifact.effect.write a = .ok bytes)
    (written' : Artifact.effect.write { a with passes } = .ok bytes) :
    a.passes.map Pass.codeTargets = passes.map Pass.codeTargets := by
  obtain ⟨_, h, h'⟩ := seq_write_cancel written written'
  obtain ⟨_, h, h'⟩ := seq_write_cancel h h'
  obtain ⟨_, h, h'⟩ := seq_write_cancel h h'
  obtain ⟨_, h, h'⟩ := seq_write_cancel h h'
  obtain ⟨_, h, h'⟩ := seq_write_cancel h h'
  obtain ⟨_, h, h'⟩ := seq_write_cancel h h'
  obtain ⟨_, h, h'⟩ := seq_write_cancel h h'
  obtain ⟨_, h, h'⟩ := seq_write_cancel h h'
  obtain ⟨_, h, h'⟩ := seq_write_cancel h h'
  obtain ⟨_, h, h'⟩ := seq_write_cancel h h'
  have hstored : a.passes.map Pass.stored = passes.map Pass.stored :=
    Artifact.law_pass.list.stored_eq (fun _ _ => trivial) (fun _ _ => trivial) h h'
  have htargets := congrArg (List.map Pass.codeTargets) hstored
  simpa [Function.comp_def, Pass.codeTargets_stored] using htargets

/-- Effects without a difference have the same artifact exactly when the code of each stage is in
the same place in both. -/
theorem Effect.serialize_eq_iff_of_no_difference (a b : Effect) (bytes bytes' : List UInt8)
    (written : a.serialize = .ok bytes) (written' : b.serialize = .ok bytes')
    (same : a.difference? b = none) : bytes = bytes' ↔ a.codeTargets = b.codeTargets := by
  have hsame : a.placeless = b.placeless := Effect.difference?_eq_none.mp same
  constructor
  · rintro rfl
    obtain ⟨body, hbody, hbytes⟩ := Artifact.serialize_eq_ok.mp written
    obtain ⟨body', hbody', hbytes'⟩ := Artifact.serialize_eq_ok.mp written'
    rw [hbytes, List.append_cancel_left_eq] at hbytes'
    have hb : b = { a with passes := b.passes } := by
      obtain ⟨⟩ := a
      obtain ⟨⟩ := b
      simp only [Effect.placeless, Effect.mk.injEq] at hsame ⊢
      obtain ⟨h1, h2, h3, h4, h5, h6, h7, h8, h9, _, h10⟩ := hsame
      simp [h1, h2, h3, h4, h5, h6, h7, h8, h9, h10]
    rw [hb, ← hbytes'] at hbody'
    exact Artifact.codeTargets_eq_of_write hbody hbody'
  · intro placed
    rw [Effect.eq_of_placeless hsame placed, written'] at written
    exact (Except.ok.inj written).symm

/-- Two code fragments of one name; the only stage runs the one at `place`. -/
def twinFragments (place : Handle) : Effect where
  name := "E"
  codeFragments := [⟨"F", "a"⟩, ⟨"F", "b"⟩]
  passes := [{ name := "P", stages := [{ kind := .fragment, fragment := ⟨"F", some place⟩ }] }]

theorem twinFragments_places_tell_apart : ∃ bytes bytes',
    (twinFragments 0).serialize = .ok bytes ∧ (twinFragments 1).serialize = .ok bytes' ∧
      (twinFragments 0).difference? (twinFragments 1) = none ∧ bytes ≠ bytes' := by
  obtain ⟨bytes, written⟩ : ∃ bytes, (twinFragments 0).serialize = .ok bytes := ⟨_, rfl⟩
  obtain ⟨bytes', written'⟩ : ∃ bytes, (twinFragments 1).serialize = .ok bytes := ⟨_, rfl⟩
  have same : (twinFragments 0).difference? (twinFragments 1) = none := by decide
  have places := Effect.serialize_eq_iff_of_no_difference (twinFragments 0) (twinFragments 1)
    bytes bytes' written written' same
  refine ⟨bytes, bytes', written, written', same, ?_⟩
  intro hbytes
  exact absurd (places.mp hbytes) (by decide)

/-- A comparison can pass over a difference between artifacts: two fragments of one name. -/
theorem no_difference_between_unequal_artifacts :
    ¬ ∀ (a b : Effect) (bytes bytes' : List UInt8), a.serialize = .ok bytes →
      b.serialize = .ok bytes' → a.difference? b = none → bytes = bytes' := by
  intro always
  have hbytes := always (twinFragments 0) (twinFragments 1) _ _ rfl rfl (by decide)
  exact absurd hbytes (by decide)

end Kfx
