import Mathlib.Data.List.Basic
import Kfx.Proofs.Stage.Build

/-!
# The course of a build

The compiler is a plain function here. A build visits the stages of all passes in order. The first
stage that fails ends it; if none does, every stage has got the words answered for its own request,
behind those it had. So a second build adds the same words once more.
-/
namespace Kfx

/-- The request for a stage of `e`, if its handle points at a fragment. -/
def Stage.request? (e : Effect) (entryPoint : String) (s : Stage) : Option StageRequest := do
  let handle ← s.fragment.target
  let fragment ← e.codeFragments[handle.toNat]?
  return {
    source := fragment.source
    stage := s.kind
    entryPoint := entryPoint
    defines := [(s.kind.define, "1")]
    fileName := e.sourcePath ++ ":" ++ fragment.name }

/-- A stage in its place: the pass it belongs to and its number there. -/
structure Visit where
  pass : String
  index : Nat
  stage : Stage

/-- The stages of a pass, numbered from `index`. -/
def visitsFrom (pass : String) (index : Nat) (stages : List Stage) : List Visit :=
  (stages.zipIdx index).map fun (stage, i) => ⟨pass, i, stage⟩

/-- All stages: pass by pass, and within a pass in order. -/
def Effect.visits (e : Effect) : List Visit :=
  e.passes.flatMap fun p => visitsFrom p.name 0 p.stages

/-- What a build makes of a stage: its words, or the error that ends the build. -/
def Visit.outcome (ctx : BuildContext Id) (e : Effect) (v : Visit) :
    Except BuildError (List UInt32) :=
  match v.stage.request? e ctx.entryPoint with
  | none => .error (.unbound v.pass v.index v.stage.fragment.name)
  | some request =>
    (ctx.compiler request ctx.includes).toWords ctx.limit v.pass v.index v.stage.kind

/-- The error that ends the build at a stage, if one does. -/
def Visit.failure? (ctx : BuildContext Id) (e : Effect) (v : Visit) : Option BuildError :=
  match v.outcome ctx e with
  | .error err => some err
  | .ok _ => none

/-- The words answered for a stage; none if there are none. -/
def Stage.answered (ctx : BuildContext Id) (e : Effect) (s : Stage) : List UInt32 :=
  match (s.request? e ctx.entryPoint).map fun request => ctx.compiler request ctx.includes with
  | some (.words code) => code
  | _ => []

/-- The stage with the words answered for it behind those it had. -/
def Stage.rebuilt (ctx : BuildContext Id) (e : Effect) (s : Stage) : Stage :=
  { s with bytecode := s.bytecode ++ s.answered ctx e }

def Effect.mapStages (f : Stage → Stage) (e : Effect) : Effect :=
  { e with passes := e.passes.map fun p => { p with stages := p.stages.map f } }

/-- The effect with other words in its stages. -/
def Effect.withWords (words : Stage → List UInt32) (e : Effect) : Effect :=
  e.mapStages fun s => { s with bytecode := words s }

def unlessFailed {ε α : Type} (failure : Option ε) (a : α) : Except ε α :=
  match failure with
  | some err => .error err
  | none => .ok a

section

variable {ctx : BuildContext Id} {e : Effect} {pass : String}

theorem Stage.request?_eq (s : Stage) (entryPoint : String) :
    s.request? e entryPoint = (s.code? e).map (s.request e entryPoint) := by
  unfold Stage.request? Stage.code? Handle.get?
  cases s.fragment.target with
  | none => rfl
  | some handle => cases h : e.codeFragments[handle.toNat]? <;> simp [h, Stage.request, toString]

theorem Visit.outcome_eq_ok {v : Visit} {code : List UInt32} :
    v.outcome ctx e = .ok code ↔ ∃ request, v.stage.request? e ctx.entryPoint = some request ∧
      ctx.compiler request ctx.includes = .words code := by
  unfold Visit.outcome
  cases v.stage.request? e ctx.entryPoint with
  | none => simp
  | some request => simp [Answer.toWords_eq_ok]

/-- A stage fails, or it has been answered with words. -/
theorem Visit.outcome_cases (ctx : BuildContext Id) (e : Effect) (v : Visit) :
    (∃ err, v.outcome ctx e = .error err ∧ v.failure? ctx e = some err) ∨
      (v.outcome ctx e = .ok (v.stage.answered ctx e) ∧ v.failure? ctx e = none) := by
  cases houtcome : v.outcome ctx e with
  | error err => exact Or.inl ⟨err, rfl, by rw [Visit.failure?, houtcome]⟩
  | ok code =>
    obtain ⟨request, hrequest, hanswer⟩ := Visit.outcome_eq_ok.mp houtcome
    have hanswered : v.stage.answered ctx e = code := by
      rw [Stage.answered, hrequest, Option.map_some, hanswer]
    exact Or.inr ⟨congrArg Except.ok hanswered.symm, by rw [Visit.failure?, houtcome]⟩

theorem Visit.failure?_eq_none {v : Visit} :
    v.failure? ctx e = none ↔ v.outcome ctx e = .ok (v.stage.answered ctx e) := by
  rcases v.outcome_cases ctx e with ⟨err, houtcome, hfails⟩ | ⟨houtcome, hok⟩
  · simp [houtcome, hfails]
  · simp [houtcome, hok]

theorem Visit.failure?_eq_some {v : Visit} {err : BuildError} :
    v.failure? ctx e = some err ↔ v.outcome ctx e = .error err := by
  rcases v.outcome_cases ctx e with ⟨err', houtcome, hfails⟩ | ⟨houtcome, hok⟩
  · simp [houtcome, hfails]
  · simp [houtcome, hok]

/-- Building a stage comes to what is made of it, put behind its words. -/
theorem Stage.result_build (s : Stage) (index : Nat) :
    (s.build ctx e pass index).outcome.result =
      (Visit.outcome ctx e ⟨pass, index, s⟩).map fun code =>
        { s with bytecode := s.bytecode ++ code } := by
  have hend : ∀ words : Except BuildError (List UInt32),
      (match words with
        | .error failure => .fail failure
        | .ok code => pure { s with bytecode := s.bytecode ++ code } :
          LoggedT BuildError Id Stage).outcome.result =
        words.map fun code => { s with bytecode := s.bytecode ++ code } := by
    intro words
    cases words <;> rfl
  unfold Stage.build Visit.outcome
  rw [Stage.request?_eq]
  cases s.code? e with
  | none => rfl
  | some fragment =>
    rw [LoggedT.result_bind]
    exact hend _

/-- The stages of a pass are all built, or the first that fails ends the build. -/
theorem result_buildStages (stages : List Stage) (index : Nat) :
    (buildStages ctx e pass index stages).outcome.result =
      unlessFailed ((visitsFrom pass index stages).findSome? (Visit.failure? ctx e))
        (stages.map (Stage.rebuilt ctx e)) := by
  induction stages generalizing index with
  | nil => rfl
  | cons s rest ih =>
    have hvisits : visitsFrom pass index (s :: rest) =
        ⟨pass, index, s⟩ :: visitsFrom pass (index + 1) rest := rfl
    rw [buildStages, LoggedT.result_bind, Stage.result_build, hvisits, List.findSome?_cons]
    rcases Visit.outcome_cases ctx e ⟨pass, index, s⟩ with ⟨err, houtcome, hfails⟩ | ⟨houtcome, hok⟩
    · rw [houtcome, hfails]
      rfl
    · rw [houtcome, hok]
      change ((buildStages ctx e pass (index + 1) rest) >>= _).outcome.result = _
      rw [LoggedT.result_bind, ih]
      cases (visitsFrom pass (index + 1) rest).findSome? (Visit.failure? ctx e) <;> rfl

theorem result_buildPasses (passes : List Pass) :
    (buildPasses ctx e passes).outcome.result =
      unlessFailed
        ((passes.flatMap fun p => visitsFrom p.name 0 p.stages).findSome? (Visit.failure? ctx e))
        (passes.map fun p => { p with stages := p.stages.map (Stage.rebuilt ctx e) }) := by
  induction passes with
  | nil => rfl
  | cons p rest ih =>
    rw [buildPasses, LoggedT.result_bind, result_buildStages, List.flatMap_cons,
      List.findSome?_append]
    cases (visitsFrom p.name 0 p.stages).findSome? (Visit.failure? ctx e) with
    | some err => rfl
    | none =>
      change ((buildPasses ctx e rest) >>= _).outcome.result = _
      rw [LoggedT.result_bind, ih]
      cases (rest.flatMap fun p => visitsFrom p.name 0 p.stages).findSome?
        (Visit.failure? ctx e) <;> rfl

/-- A build ends with the first failure among its stages; if there is none, every stage has got its
words. -/
theorem Effect.result_build (e : Effect) :
    (e.build ctx).outcome.result =
      unlessFailed (e.visits.findSome? (Visit.failure? ctx e))
        (e.mapStages (Stage.rebuilt ctx e)) := by
  rw [Effect.build, LoggedT.result_bind, result_buildPasses, Effect.visits]
  cases (e.passes.flatMap fun p => visitsFrom p.name 0 p.stages).findSome?
    (Visit.failure? ctx e) <;> rfl

theorem unlessFailed_eq_ok {ε α : Type} {failure : Option ε} {a b : α} :
    unlessFailed failure a = .ok b ↔ failure = none ∧ a = b := by
  cases failure <;> simp [unlessFailed]

theorem Stage.rebuilt_eq_self {s : Stage} : s.rebuilt ctx e = s ↔ s.answered ctx e = [] := by
  constructor
  · intro h
    have hwords : s.bytecode ++ s.answered ctx e = s.bytecode := congrArg Stage.bytecode h
    simpa using hwords
  · intro h
    rw [Stage.rebuilt, h, List.append_nil]

theorem Effect.visits_mapStages (f : Stage → Stage) (e : Effect) :
    (e.mapStages f).visits = e.visits.map fun v => { v with stage := f v.stage } := by
  have hvisits : ∀ (pass : String) (stages : List Stage), visitsFrom pass 0 (stages.map f) =
      (visitsFrom pass 0 stages).map fun v => { v with stage := f v.stage } := by
    intro pass stages
    rw [visitsFrom, visitsFrom, List.zipIdx_map, List.map_map, List.map_map]
    rfl
  simp only [Effect.visits, Effect.mapStages, List.flatMap_map, List.map_flatMap, hvisits]

theorem Effect.mapStages_mapStages (f g : Stage → Stage) (e : Effect) :
    (e.mapStages f).mapStages g = e.mapStages (g ∘ f) := by
  simp only [Effect.mapStages, List.map_map, Function.comp_def]

theorem Effect.mapStages_id (e : Effect) : e.mapStages id = e := by
  simp [Effect.mapStages]

theorem Effect.forall_visits {e : Effect} {P : Stage → Prop} :
    (∀ v ∈ e.visits, P v.stage) ↔ ∀ p ∈ e.passes, ∀ s ∈ p.stages, P s := by
  have hstages : ∀ stages : List Stage, (∀ x ∈ stages.zipIdx 0, P x.1) ↔ ∀ s ∈ stages, P s := by
    intro stages
    rw [← List.forall_mem_map, List.zipIdx_map_fst]
  simp only [Effect.visits, List.forall_mem_flatMap, visitsFrom, List.forall_mem_map, hstages]

theorem Effect.mapStages_inj {f g : Stage → Stage} {e : Effect} :
    e.mapStages f = e.mapStages g ↔ ∀ v ∈ e.visits, f v.stage = g v.stage := by
  rw [Effect.forall_visits (P := fun s => f s = g s)]
  simp [Effect.mapStages]

theorem Effect.mapStages_eq_self {f : Stage → Stage} {e : Effect} :
    e.mapStages f = e ↔ ∀ v ∈ e.visits, f v.stage = v.stage := by
  have hid := e.mapStages_inj (f := f) (g := id)
  rwa [Effect.mapStages_id] at hid

/-- The words a stage has make no difference to what is asked and answered. -/
theorem Effect.failures_withWords (words : Stage → List UInt32) (e : Effect) :
    (e.withWords words).visits.findSome? (Visit.failure? ctx (e.withWords words)) =
      e.visits.findSome? (Visit.failure? ctx e) := by
  rw [Effect.withWords, Effect.visits_mapStages, List.findSome?_map]
  rfl

theorem Effect.result_build_withWords (words : Stage → List UInt32) {e : Effect}
    (succeeds : e.visits.findSome? (Visit.failure? ctx e) = none) :
    ((e.withWords words).build ctx).outcome.result =
      .ok (e.withWords fun s => words s ++ s.answered ctx e) := by
  rw [Effect.result_build, Effect.failures_withWords, succeeds]
  refine congrArg Except.ok ?_
  rw [Effect.withWords, Effect.mapStages_mapStages]
  rfl

end

/-- A second build adds the words of the first once more; it changes nothing only where the first
changed nothing either. From an effect without words it comes to the answered words alone. -/
theorem Effect.build_again_adds_words (ctx : BuildContext Id) (e built : Effect)
    (first : (e.build ctx).outcome.result = .ok built) :
    ∃ words : Stage → List UInt32,
      (∀ v ∈ e.visits, ∃ request, v.stage.request? e ctx.entryPoint = some request ∧
        ctx.compiler request ctx.includes = .words (words v.stage)) ∧
      built = e.withWords (fun s => s.bytecode ++ words s) ∧
      (built.build ctx).outcome.result =
        .ok (e.withWords fun s => s.bytecode ++ words s ++ words s) ∧
      (built.bare.build ctx).outcome.result = .ok (e.withWords words) ∧
      ((built.build ctx).outcome.result = .ok built ↔ built = e) := by
  rw [Effect.result_build, unlessFailed_eq_ok] at first
  obtain ⟨hnone, rfl⟩ := first
  have hagain : ((e.mapStages (Stage.rebuilt ctx e)).build ctx).outcome.result =
      .ok (e.withWords fun s => s.bytecode ++ s.answered ctx e ++ s.answered ctx e) :=
    Effect.result_build_withWords _ hnone
  refine ⟨Stage.answered ctx e, ?_, rfl, ?_, ?_, ?_⟩
  · intro v hv
    have hok : v.failure? ctx e = none := List.findSome?_eq_none_iff.mp hnone v hv
    exact Visit.outcome_eq_ok.mp (Visit.failure?_eq_none.mp hok)
  · exact hagain
  · have hbare : (e.mapStages (Stage.rebuilt ctx e)).bare = e.withWords fun _ => [] :=
      Effect.mapStages_mapStages _ Stage.bare e
    rw [hbare]
    exact Effect.result_build_withWords _ hnone
  · rw [hagain, Except.ok.injEq, Effect.withWords, Effect.mapStages_inj,
      Effect.mapStages_eq_self]
    refine forall₂_congr fun v _ => ?_
    rw [Stage.rebuilt_eq_self]
    simp [Stage.rebuilt]

def constantContext : BuildContext Id where
  compiler _ _ := .words [7]
  includes name := .error name

def freshEffect : Effect where
  name := "E"
  sourcePath := "E.kfx"
  codeFragments := [⟨"F", "m"⟩]
  passes := [{ name := "P", stages := [{ kind := .fragment, fragment := ⟨"F", some 0⟩ }] }]

theorem freshEffect_again_adds_words :
    (freshEffect.build constantContext).outcome.result = .ok (freshEffect.withWords fun _ => [7]) ∧
    (((freshEffect.withWords fun _ => [7]).build constantContext).outcome.result =
        .ok (freshEffect.withWords fun _ => [7]) ↔
      (freshEffect.withWords fun _ => [7]) = freshEffect) := by
  have first : (freshEffect.build constantContext).outcome.result =
      .ok (freshEffect.withWords fun _ => [7]) := by decide +kernel
  obtain ⟨_, _, _, _, _, hsame⟩ := Effect.build_again_adds_words constantContext freshEffect _ first
  exact ⟨first, hsame⟩

/-- Building what was built comes to something else. -/
theorem second_build_differs :
    (freshEffect.build constantContext).outcome.result = .ok (freshEffect.withWords fun _ => [7]) ∧
    ((freshEffect.withWords fun _ => [7]).build constantContext).outcome.result =
      .ok (freshEffect.withWords fun _ => [7, 7]) ∧
    ((freshEffect.withWords fun _ => [7]).build constantContext).outcome.result ≠
      .ok (freshEffect.withWords fun _ => [7]) := by
  decide +kernel

end Kfx
