import Kfx.Compile
import Kfx.Proofs.Artifact.RoundTrip
import Kfx.Proofs.Grammar.Masks
import Kfx.Proofs.Resolution.Links
import Kfx.Proofs.Stage.Build

/-!
# Compiled effects in their artifacts

An effect that was compiled from a source comes back from its artifact as it was, whatever the
compiler answered. Parsing only makes known masks, resolution points every link at a definition of
its name, and building adds words and nothing else; so what is compiled is in normal form.
-/
namespace Kfx

theorem Resolved.result_toLogged_eq_ok {α : Type} {x : Resolved α} {a : α} :
    x.toLogged.result = .ok a ↔ x.error = none ∧ x.value = a := by
  unfold Resolved.toLogged
  cases x.error <;> simp

/-- A source is loaded in two steps, and both have to succeed. -/
theorem Effect.result_load_eq_ok {source path : String} {e : Effect} :
    (Effect.load source path).result = .ok e ↔
      ∃ parsed, (Effect.parse source).result = .ok parsed ∧
        (parsed.locate path).resolve.error = none ∧ (parsed.locate path).resolve.value = e := by
  simp only [Effect.load, Logged.result_andThen_eq_ok, Logged.result_mapError_eq_ok,
    Resolved.result_toLogged_eq_ok]

theorem result_compileSource_eq_ok {ctx : BuildContext Id} {source path : String} {e : Effect} :
    (compileSource ctx source path).outcome.result = .ok e ↔
      ∃ loaded, (Effect.load source path).result = .ok loaded ∧
        (loaded.build ctx).outcome.result = .ok e := by
  unfold compileSource
  simp only [LoggedT.result_bind_eq_ok, LoggedT.outcome_ofLogged, LoggedT.outcome_mapError,
    Logged.result_mapError_eq_ok]

theorem Effect.MasksKnown.locate {e : Effect} (h : e.MasksKnown) (path : String) :
    (e.locate path).MasksKnown :=
  { h with }

theorem Effect.Fits.indexable {e : Effect} (h : e.Fits) : e.Indexable where
  vertexLayouts := h.vertexLayouts.1
  localResources := h.localResources.1
  constantBuffers := h.constantBuffers.1
  uniformBuffers := h.uniformBuffers.1
  storageBuffers := h.storageBuffers.1
  renderStates := h.renderStates.1
  codeFragments := h.codeFragments.1

/-- A loaded effect is in normal form, provided its arrays can be indexed at all. -/
theorem Effect.normal_of_load {source path : String} {e : Effect}
    (loaded : (Effect.load source path).result = .ok e) (short : e.Indexable) : e.Normal := by
  obtain ⟨parsed, hparsed, hnone, rfl⟩ := Effect.result_load_eq_ok.mp loaded
  have hmasks : (parsed.locate path).MasksKnown := (Effect.masksKnown_of_parse hparsed).locate path
  exact Effect.ensures_resolve _ (Effect.indexable_of_resolve short) hmasks hnone

section

variable {e : Effect}

theorem Effect.indexable_bare : e.bare.Indexable ↔ e.Indexable :=
  ⟨fun h => { h with }, fun h => { h with }⟩

theorem Pass.normal_bare {p : Pass} : p.bare.Normal e ↔ p.Normal e := by
  constructor
  · intro h
    exact { h with stages := List.forall_mem_map.mp h.stages }
  · intro h
    exact { h with stages := List.forall_mem_map.mpr h.stages }

/-- The words of the stages do not matter for the normal form. -/
theorem Effect.normal_bare : e.bare.Normal ↔ e.Normal := by
  constructor
  · intro h
    refine ⟨{ h.masks with }, h.buffers, ?_⟩
    intro p hp
    have hplain := Pass.normal_bare.mp (List.forall_mem_map.mp h.passes p hp)
    exact { hplain with }
  · intro h
    refine ⟨{ h.masks with }, h.buffers, ?_⟩
    refine List.forall_mem_map.mpr fun p hp => ?_
    have hbare := Pass.normal_bare.mpr (h.passes p hp)
    exact { hbare with }

end

/-- Whatever the compiler and the include files are, what was compiled from a source and stored is
what is read. -/
theorem compileSource_reads_back (ctx : BuildContext Id) (source path : String) (e : Effect)
    (bytes : List UInt8) (compiled : (compileSource ctx source path).outcome.result = .ok e)
    (written : e.serialize = .ok bytes) : Effect.deserialize bytes = .ok e := by
  obtain ⟨loaded, hloaded, hbuilt⟩ := result_compileSource_eq_ok.mp compiled
  have hbare : e.bare = loaded.bare := Effect.bare_of_build hbuilt
  have hshort : e.Indexable := ((Artifact.law_whole.writes e).mpr ⟨bytes, written⟩).indexable
  have hnormal : loaded.Normal := by
    apply Effect.normal_of_load hloaded
    rwa [← Effect.indexable_bare, ← hbare, Effect.indexable_bare]
  rw [Artifact.deserialize_serialized_eq_self written]
  rwa [← Effect.normal_bare, hbare, Effect.normal_bare]

/-- A buffer, a pass that binds it, and the code of its only stage. -/
def tintSource : String :=
  "Layout \x7b local Resource R \x7b UniformBuffer B Stage(Vertex); \x7d " ++
  "UniformBuffer B \x7b Float4 tint; \x7d \x7d " ++
  "Pass P \x7b Resources R VertexShader F \x7d GLSL F \x7bm\x7d"

def lengthContext : BuildContext Id where
  compiler request _ := .words [UInt32.ofNat request.source.length]
  includes name := .error name

def tintEffect : Effect where
  name := "E"
  sourcePath := "E.kfx"
  localResources := [{
    name := "R"
    bindings := [{
      name := "B"
      kind := .uniformBuffer
      stages := .ofKind .vertex
      size := some 16
      buffer := some 0 }] }]
  uniformBuffers := [{ name := "B", fields := [{ type := ⟨.float4, 1⟩, name := "tint" }] }]
  codeFragments := [{ name := "F", source := "m" }]
  passes := [{
    name := "P"
    resources := some ⟨"R", some 0⟩
    stages := [{ kind := .vertex, fragment := ⟨"F", some 0⟩, bytecode := [1] }] }]

theorem tintSource_reads_back :
    (compileSource lengthContext tintSource "E.kfx").outcome.result = .ok tintEffect ∧
      ∃ bytes, tintEffect.serialize = .ok bytes ∧ Effect.deserialize bytes = .ok tintEffect := by
  have compiled : (compileSource lengthContext tintSource "E.kfx").outcome.result =
      .ok tintEffect := by
    decide +kernel
  obtain ⟨bytes, written⟩ : ∃ bytes, tintEffect.serialize = .ok bytes := ⟨_, rfl⟩
  exact ⟨compiled, bytes, written,
    compileSource_reads_back lengthContext tintSource "E.kfx" tintEffect bytes compiled written⟩

end Kfx
