import Kfx.Artifact.Basic
import Kfx.Proofs.Artifact.Relink
import Kfx.Proofs.Log

/-!
# Artifacts as a whole

An effect that fits has an artifact, and the artifact can be loaded exactly when masks and indices
are in order; the effect that is loaded has no other artifact, and its references are sound whatever
the bytes were; and no part of an artifact, nor an artifact with something behind it, is an
artifact.
-/
namespace Kfx

open Codec Decoder

namespace Artifact

def whole : Codec Effect where
  write := Effect.serialize
  read := readEffect

def header : List UInt8 := magic ++ wordBytes version

theorem readEffect_eq : readEffect = (do
    let found ← take 4
    if found = magic then
      let v ← word.read
      if v = version then effect.read else fail (.badVersion v version)
    else fail (.badMagic found)) := rfl

theorem serialize_eq_ok {e : Effect} {bytes : List UInt8} :
    e.serialize = .ok bytes ↔ ∃ body, effect.write e = .ok body ∧ bytes = header ++ body := by
  unfold Effect.serialize
  rw [bind_eq_ok]
  constructor
  · rintro ⟨body, hbody, hpure⟩
    cases hpure
    exact ⟨body, hbody, rfl⟩
  · rintro ⟨body, hbody, rfl⟩
    exact ⟨body, hbody, rfl⟩

theorem run_readEffect_of_advances {i j : Input} (h : i.Advances header j) :
    readEffect.run i = effect.read.run j := by
  obtain ⟨k, hmagic, hversion⟩ := h.split
  have htake : (take 4).run i = .ok (magic, k) := run_take_of_advances hmagic
  have hword : word.read.run k = .ok (version, j) := law_word.reads rfl trivial hversion
  rw [readEffect_eq, run_bind_of_ok htake, if_pos rfl, run_bind_of_ok hword, if_pos rfl]

/-- Reading an artifact goes over its header first. -/
theorem advances_of_run_readEffect {i k : Input} {e : Effect}
    (h : readEffect.run i = .ok (e, k)) :
    ∃ j, i.Advances header j ∧ effect.read.run j = .ok (e, k) := by
  rw [readEffect_eq] at h
  obtain ⟨found, j, htake, hrest⟩ := run_bind_eq_ok h
  by_cases hmagic : found = magic
  · rw [if_pos hmagic] at hrest
    obtain ⟨v, l, hword, hbody⟩ := run_bind_eq_ok hrest
    by_cases hversion : v = version
    · rw [if_pos hversion] at hbody
      obtain ⟨bytes, hbytes, hadvances⟩ := law_word.canonical hword
      cases hbytes
      subst hmagic hversion
      exact ⟨l, (advances_of_run_take htake).2.trans hadvances, hbody⟩
    · rw [if_neg hversion] at hbody
      cases hbody
  · rw [if_neg hmagic] at hrest
    cases hrest

theorem incremental_readEffect : Incremental readEffect := by
  rw [readEffect_eq]
  refine (incremental_take 4).bind fun found => ?_
  by_cases hmagic : found = magic
  · rw [if_pos hmagic]
    refine incremental_word.bind fun v => ?_
    by_cases hversion : v = version
    · rw [if_pos hversion]
      exact law_effect.incremental
    · rw [if_neg hversion]
      exact incremental_fail (by rintro ⟨_, _, h⟩; cases h)
  · rw [if_neg hmagic]
    exact incremental_fail (by rintro ⟨_, _, h⟩; cases h)

/-- Whole artifacts are lawful, header and all. -/
theorem law_whole : whole.Law Effect.Fits Effect.MasksKnown Effect.stored where
  writes e := by
    rw [law_effect.writes]
    constructor
    · rintro ⟨body, hbody⟩
      exact ⟨header ++ body, serialize_eq_ok.mpr ⟨body, hbody, rfl⟩⟩
    · rintro ⟨bytes, hbytes⟩
      obtain ⟨body, hbody, _⟩ := serialize_eq_ok.mp hbytes
      exact ⟨body, hbody⟩
  write_stored e := by
    show e.stored.serialize = e.serialize
    rw [Effect.serialize, Effect.serialize, law_effect.write_stored]
  reads hwrite hk hadvances := by
    obtain ⟨body, hbody, rfl⟩ := serialize_eq_ok.mp hwrite
    obtain ⟨k, hheader, hrest⟩ := hadvances.split
    exact (run_readEffect_of_advances hheader).trans (law_effect.reads hbody hk hrest)
  refuses hwrite hk hadvances := by
    obtain ⟨body, hbody, rfl⟩ := serialize_eq_ok.mp hwrite
    obtain ⟨k, hheader, hrest⟩ := hadvances.split
    obtain ⟨e, he⟩ := law_effect.refuses hbody hk hrest
    exact ⟨e, (run_readEffect_of_advances hheader).trans he⟩
  canonical h := by
    obtain ⟨k, hheader, hread⟩ := advances_of_run_readEffect h
    obtain ⟨body, hbody, hadvances⟩ := law_effect.canonical hread
    exact ⟨header ++ body, serialize_eq_ok.mpr ⟨body, hbody, rfl⟩, hheader.trans hadvances⟩
  incremental := incremental_readEffect

theorem deserialize_of_error {bytes : List UInt8} {x : FormatError}
    (h : readEffect.run ⟨0, bytes⟩ = .error x) : Effect.deserialize bytes = .error x := by
  rw [Effect.deserialize, h]
  rfl

theorem deserialize_of_ok {bytes : List UInt8} {e : Effect} {left : Input}
    (h : readEffect.run ⟨0, bytes⟩ = .ok (e, left)) : Effect.deserialize bytes =
      if left.rest = [] then relink e else .error (.trailing left.rest.length) := by
  rw [Effect.deserialize, h]
  rfl

theorem deserialize_eq_ok {bytes : List UInt8} {e : Effect}
    (h : Effect.deserialize bytes = .ok e) :
    ∃ e' j, readEffect.run ⟨0, bytes⟩ = .ok (e', j) ∧ j.rest = [] ∧ relink e' = .ok e := by
  cases hread : readEffect.run ⟨0, bytes⟩ with
  | error x => rw [deserialize_of_error hread] at h; cases h
  | ok r =>
    obtain ⟨e', j⟩ := r
    rw [deserialize_of_ok hread] at h
    by_cases hrest : j.rest = []
    · rw [if_pos hrest] at h
      exact ⟨e', j, rfl, hrest, h⟩
    · rw [if_neg hrest] at h
      cases h

/-- What is loaded from the artifact of `e`, and when. -/
theorem deserialize_serialized_eq_ok {e e' : Effect} {bytes : List UInt8}
    (written : e.serialize = .ok bytes) : Effect.deserialize bytes = .ok e' ↔
      (e.MasksKnown ∧ e.BuffersInRange ∧ e.TargetsInRange) ∧ e' = e.normalise := by
  have hadvances : Input.Advances ⟨0, bytes⟩ bytes ⟨0 + bytes.length, []⟩ :=
    ⟨(List.append_nil bytes).symm, rfl⟩
  by_cases hk : e.MasksKnown
  · have hread : readEffect.run ⟨0, bytes⟩ = .ok (e.stored, _) :=
      law_whole.reads written hk hadvances
    rw [deserialize_of_ok hread, if_pos rfl, relink_stored_eq_ok]
    exact ⟨fun ⟨h1, h2, h3⟩ => ⟨⟨hk, h1, h2⟩, h3⟩, fun ⟨⟨_, h1, h2⟩, h3⟩ => ⟨h1, h2, h3⟩⟩
  · obtain ⟨x, hx⟩ := law_whole.refuses written hk hadvances
    rw [deserialize_of_error hx]
    exact ⟨fun h => (by cases h), fun h => absurd h.1.1 hk⟩

theorem deserialize_serialized_eq_self {e : Effect} {bytes : List UInt8}
    (written : e.serialize = .ok bytes) : Effect.deserialize bytes = .ok e ↔ e.Normal := by
  rw [deserialize_serialized_eq_ok written, Effect.normal_iff, eq_comm (a := e)]

theorem serialize_normalise (e : Effect) : e.normalise.serialize = e.serialize := by
  have hstored := law_whole.write_stored e.normalise
  rw [Effect.stored_normalise, law_whole.write_stored] at hstored
  exact hstored.symm

theorem serialize_deserialized {e : Effect} {bytes : List UInt8}
    (loaded : Effect.deserialize bytes = .ok e) : e.serialize = .ok bytes := by
  obtain ⟨e', j, hread, hrest, hrelink⟩ := deserialize_eq_ok loaded
  obtain ⟨bytes', hwrite, hadvances⟩ := law_whole.canonical hread
  have hbytes : bytes' = bytes := by
    have hall := hadvances.1
    rw [hrest, List.append_nil] at hall
    exact hall.symm
  have hstored := (law_whole.of_read hread).2
  rw [← hstored, relink_stored_eq_ok] at hrelink
  rw [hrelink.2.2, serialize_normalise, ← hbytes]
  exact hwrite

end Artifact

open Artifact

/-- A pass with a render state and a stage without code. -/
def plainPass : Effect where
  name := "E"
  renderStates := [{ name := "S" }]
  passes := [{
    name := "P"
    renderState := some ⟨"S", some 0⟩
    stages := [{ kind := .vertex, fragment := ⟨"", none⟩ }] }]

def plainPassBytes : List UInt8 :=
  header ++ [1, 0, 0, 0, 69] ++ List.replicate 28 0 ++
    [1, 0, 0, 0, 1, 0, 0, 0, 83, 2, 3, 1, 0, 1, 0, 1, 0, 0, 0, 0, 0, 0, 128, 63] ++ [0, 0, 0, 0] ++
    [1, 0, 0, 0, 1, 0, 0, 0, 80, 0, 0, 0, 1, 0, 0, 0, 0, 1, 0, 0, 0, 0, 0, 0, 0, 0, 0]

/-- A loaded effect is written with the bytes it was loaded from, so no other bytes load as it. -/
theorem Effect.deserialize_canonical (bytes : List UInt8) (e : Effect)
    (loaded : Effect.deserialize bytes = .ok e) :
    e.serialize = .ok bytes ∧
      ∀ bytes', Effect.deserialize bytes' = .ok e → bytes' = bytes := by
  refine ⟨serialize_deserialized loaded, ?_⟩
  intro bytes' loaded'
  have hsame := (serialize_deserialized loaded').symm.trans (serialize_deserialized loaded)
  exact Except.ok.inj hsame

theorem plainPass_canonical : Effect.deserialize plainPassBytes = .ok plainPass ∧
    plainPass.serialize = .ok plainPassBytes ∧
      ∀ bytes', Effect.deserialize bytes' = .ok plainPass → bytes' = plainPassBytes := by
  have loaded : Effect.deserialize plainPassBytes = .ok plainPass := by decide +kernel
  exact ⟨loaded, Effect.deserialize_canonical plainPassBytes plainPass loaded⟩

/-- A part of an artifact is missing bytes, and at most those that were cut off; bytes behind an
artifact are counted. Neither depends on where the links of the effect point. -/
theorem Effect.serialize_self_delimiting (e : Effect) (bytes : List UInt8)
    (known : e.MasksKnown) (written : e.serialize = .ok bytes) :
    (∀ p, p <+: bytes → p ≠ bytes → ∃ offset needed,
      Effect.deserialize p = .error (.truncated offset needed) ∧
        offset ≤ p.length ∧ 1 ≤ needed ∧ p.length + needed ≤ bytes.length) ∧
    ∀ t, t ≠ [] → Effect.deserialize (bytes ++ t) = .error (.trailing t.length) := by
  have hwhole : ∀ t, readEffect.run ⟨0, bytes ++ t⟩ = .ok (e.stored, ⟨0 + bytes.length, t⟩) :=
    fun t => law_whole.reads written known ⟨rfl, rfl⟩
  constructor
  · rintro p ⟨q, rfl⟩ hne
    have hq : 0 < q.length := by
      apply List.length_pos_iff.mpr
      intro hnil
      simp [hnil] at hne
    have hread : readEffect.run (Input.extend ⟨0, p⟩ q) =
        .ok (e.stored, ⟨0 + (p ++ q).length, []⟩) := by
      simpa [Input.extend] using hwhole []
    obtain ⟨offset, needed, hcut, hoffset, hneeded, hle⟩ := incremental_readEffect.cut hread hq
    refine ⟨offset, needed, deserialize_of_error hcut, by simpa using hoffset, hneeded, ?_⟩
    simpa using hle
  · intro t ht
    rw [deserialize_of_ok (hwhole t), if_neg ht]

/-- A stage whose code would be the fourth of none. -/
def danglingStage : Effect where
  name := "E"
  passes := [{ name := "P", stages := [{ kind := .vertex, fragment := ⟨"F", some 3⟩ }] }]

def danglingStageBytes : List UInt8 :=
  header ++ [1, 0, 0, 0, 69] ++ List.replicate 36 0 ++
    [1, 0, 0, 0, 1, 0, 0, 0, 80, 0, 0, 0, 0, 1, 0, 0, 0, 0, 1, 3, 0, 0, 0, 0, 0, 0, 0]

theorem danglingStage_self_delimiting : danglingStage.MasksKnown ∧
    danglingStage.serialize = .ok danglingStageBytes ∧
    (∃ offset needed,
      Effect.deserialize (danglingStageBytes.take 70) = .error (.truncated offset needed) ∧
        offset ≤ 70 ∧ 1 ≤ needed ∧ 70 + needed ≤ danglingStageBytes.length) ∧
    Effect.deserialize (danglingStageBytes ++ [0, 0]) = .error (.trailing 2) := by
  have known : danglingStage.MasksKnown := by constructor <;> simp [danglingStage]
  have written : danglingStage.serialize = .ok danglingStageBytes := rfl
  obtain ⟨cut, trailing⟩ :=
    Effect.serialize_self_delimiting danglingStage danglingStageBytes known written
  exact ⟨known, written, cut _ (List.take_prefix 70 _) (by decide), trailing [0, 0] (by decide)⟩

/-- Only buffers are bound, each out of the array of its kind. -/
theorem ResourceBinding.bufferInRange_iff {e : Effect} {b : ResourceBinding} :
    b.BufferInRange e ↔ ∀ h ∈ b.buffer,
      b.kind = .uniformBuffer ∧ Handle.InRange e.uniformBuffers h ∨
        b.kind = .storageBuffer ∧ Handle.InRange e.storageBuffers h := by
  unfold ResourceBinding.BufferInRange
  cases hkind : b.kind <;> simp [Effect.buffersFor]

/-- Whatever the bytes were, every index of a loaded effect points into its own array, every link
has the name of what it points at, and every mask holds known stages only. -/
theorem Effect.deserialize_sound (bytes : List UInt8) (e : Effect)
    (loaded : Effect.deserialize bytes = .ok e) :
    (∀ p ∈ e.passes,
      (∀ l ∈ p.vertexLayout, l.Names e.vertexLayouts) ∧
      (∀ l ∈ p.resources, l.Names e.localResources) ∧
      (∀ l ∈ p.constantBuffer, l.Names e.constantBuffers) ∧
      (∀ l ∈ p.renderState, l.Names e.renderStates) ∧
      ∀ s ∈ p.stages, s.fragment.Names e.codeFragments ∨ s.fragment = ⟨"", none⟩) ∧
    (∀ block ∈ e.localResources ++ e.globalResources, ∀ b ∈ block.bindings, ∀ h ∈ b.buffer,
      b.kind = .uniformBuffer ∧ Handle.InRange e.uniformBuffers h ∨
        b.kind = .storageBuffer ∧ Handle.InRange e.storageBuffers h) ∧
    e.MasksKnown := by
  have normal : e.Normal :=
    (deserialize_serialized_eq_self (serialize_deserialized loaded)).mp loaded
  refine ⟨fun p hp => ?_, fun block hblock b hb => ?_, normal.masks⟩
  · have hpass := normal.passes p hp
    exact ⟨hpass.vertexLayout, hpass.resources, hpass.constantBuffer, hpass.renderState,
      hpass.stages⟩
  · exact ResourceBinding.bufferInRange_iff.mp (normal.buffers block hblock b hb)

/-- A binding of the second of two buffers, and a stage with code. -/
def boundPass : Effect where
  name := "E"
  globalResources := [{
    name := "R"
    bindings := [{
      name := "B"
      kind := .storageBuffer
      stages := .ofKind .compute
      buffer := some 1 }] }]
  storageBuffers := [{ name := "A" }, { name := "B" }]
  codeFragments := [{ name := "F", source := "" }]
  passes := [{ name := "P", stages := [{ kind := .compute, fragment := ⟨"F", some 0⟩ }] }]

def boundPassBytes : List UInt8 :=
  header ++ [1, 0, 0, 0, 69] ++ List.replicate 12 0 ++
    [1, 0, 0, 0, 1, 0, 0, 0, 82, 1, 0, 0, 0, 1, 0, 0, 0, 66, 1, 8] ++ List.replicate 9 0 ++
    [1, 1, 0, 0, 0] ++ List.replicate 8 0 ++
    [2, 0, 0, 0, 1, 0, 0, 0, 65, 0, 0, 0, 0, 1, 0, 0, 0, 66, 0, 0, 0, 0] ++ List.replicate 4 0 ++
    [1, 0, 0, 0, 1, 0, 0, 0, 70, 0, 0, 0, 0] ++
    [1, 0, 0, 0, 1, 0, 0, 0, 80, 0, 0, 0, 0, 1, 0, 0, 0, 3, 1, 0, 0, 0, 0, 0, 0, 0, 0]

theorem boundPass_sound : Effect.deserialize boundPassBytes = .ok boundPass ∧
    (∃ f, Handle.get? 0 boundPass.codeFragments = some f ∧ f.name = "F") ∧
    Handle.InRange boundPass.storageBuffers 1 ∧ boundPass.MasksKnown := by
  have loaded : Effect.deserialize boundPassBytes = .ok boundPass := by decide +kernel
  obtain ⟨passes, buffers, masks⟩ := Effect.deserialize_sound boundPassBytes boundPass loaded
  refine ⟨loaded, ?_, ?_, masks⟩
  · obtain ⟨_, _, _, _, stages⟩ := passes _ List.mem_cons_self
    obtain ⟨h, f, htarget, hfragment, hname⟩ | hmissing := stages _ List.mem_cons_self
    · cases htarget
      exact ⟨f, hfragment, hname⟩
    · exact absurd hmissing (by decide)
  · obtain ⟨hkind, _⟩ | ⟨_, hrange⟩ := buffers _ List.mem_cons_self _ List.mem_cons_self 1 rfl
    · cases hkind
    · exact hrange

end Kfx
