import Kfx.Proofs.Compile.Fidelity
import Kfx.Proofs.Resolution.Requirements
import Kfx.Proofs.Stage.Course

/-!
# What a build asks of its compiler

A compiler that keeps a record of its requests is asked once for every stage, in order, up to and
including the first that fails; a stage without a fragment has no request. In a loaded effect every
stage has its fragment.
-/
namespace Kfx

/-- Computations that keep a record of requests, the latest at the end. -/
abbrev Recording := StateM (List StageRequest)

/-- The same compiler and the same include files, with a record of the requests. -/
def BuildContext.recorded (ctx : BuildContext Id) : BuildContext Recording where
  compiler request files := fun asked =>
    (ctx.compiler request fun name => (files name asked).1, asked ++ [request])
  includes name := pure (ctx.includes name)
  entryPoint := ctx.entryPoint
  limit := ctx.limit

/-- What a recorded computation comes to, and the record after it. -/
def LoggedT.recordedFrom {ε α : Type} (x : LoggedT ε Recording α) (asked : List StageRequest) :
    Logged ε α × List StageRequest :=
  (x : Recording (Logged ε α)) asked

/-- The result of a build and the requests made for it. -/
def Effect.buildRecord (ctx : BuildContext Id) (e : Effect) :
    Except BuildError Effect × List StageRequest :=
  let (outcome, requests) := (e.build ctx.recorded).recordedFrom []
  (outcome.result, requests)

/-- The recorded computation `x` comes to the same as `y` and makes the given requests. -/
def Records {ε α : Type} (x : LoggedT ε Recording α) (y : LoggedT ε Id α)
    (requests : List StageRequest) : Prop :=
  ∀ asked, x.recordedFrom asked = (y.outcome, asked ++ requests)

section

variable {ε α β : Type} {x : LoggedT ε Recording α} {y : LoggedT ε Id α}
  {f : α → LoggedT ε Recording β} {g : α → LoggedT ε Id β} {requests more : List StageRequest}

theorem records_ofLogged (l : Logged ε α) : Records (.ofLogged l) (.ofLogged l) [] := by
  intro asked
  rw [List.append_nil]
  rfl

theorem records_ask (ctx : BuildContext Id) (request : StageRequest) :
    Records (ε := ε) (.lift (ctx.recorded.compiler request ctx.recorded.includes))
      (.lift (ctx.compiler request ctx.includes)) [request] :=
  fun _ => rfl

theorem LoggedT.recordedFrom_bind (x : LoggedT ε Recording α) (f : α → LoggedT ε Recording β)
    (asked : List StageRequest) :
    (x >>= f).recordedFrom asked =
      match (x.recordedFrom asked).1.result with
      | .error err => (⟨(x.recordedFrom asked).1.log, .error err⟩, (x.recordedFrom asked).2)
      | .ok a =>
        let next := (f a).recordedFrom (x.recordedFrom asked).2
        (⟨(x.recordedFrom asked).1.log ++ next.1.log, next.1.result⟩, next.2) := by
  have hstep : (x >>= f).recordedFrom asked =
      (match (x.recordedFrom asked).1.result with
        | .error err => pure ⟨(x.recordedFrom asked).1.log, .error err⟩
        | .ok a => do
          let b ← (f a : Recording (Logged ε β))
          return ⟨(x.recordedFrom asked).1.log ++ b.log, b.result⟩ :
        Recording (Logged ε β)) (x.recordedFrom asked).2 := rfl
  rw [hstep]
  cases (x.recordedFrom asked).1.result <;> rfl

theorem Records.bind_of_error {err : ε} (hx : Records x y requests)
    (hfails : y.outcome.result = .error err) : Records (x >>= f) (y >>= g) requests := by
  intro asked
  simp only [LoggedT.recordedFrom_bind, LoggedT.outcome_bind, Logged.andThen, hx asked, hfails]

theorem Records.bind_of_ok {a : α} (hx : Records x y requests)
    (hok : y.outcome.result = .ok a) (hf : Records (f a) (g a) more) :
    Records (x >>= f) (y >>= g) (requests ++ more) := by
  intro asked
  simp only [LoggedT.recordedFrom_bind, LoggedT.outcome_bind, Logged.andThen, hx asked, hok,
    hf (asked ++ requests), List.append_assoc]

theorem Records.bind_pure (hx : Records x y requests) (h : α → β) :
    Records (x >>= fun a => pure (h a)) (y >>= fun a => pure (h a)) requests := by
  cases hy : y.outcome.result with
  | error err => exact hx.bind_of_error hy
  | ok a =>
    have hmade := hx.bind_of_ok hy (f := fun a => pure (h a)) (g := fun a => pure (h a))
      (records_ofLogged (.ok (h a)))
    rwa [List.append_nil] at hmade

end

/-- The stages a build comes to: all up to the first that fails, and that one. -/
def reached (ctx : BuildContext Id) (e : Effect) : List Visit → List Visit
  | [] => []
  | v :: rest =>
    match v.failure? ctx e with
    | some _ => [v]
    | none => v :: reached ctx e rest

/-- The requests for some stages, as far as they have one. -/
def requestsFor (ctx : BuildContext Id) (e : Effect) (visits : List Visit) : List StageRequest :=
  visits.filterMap fun v => v.stage.request? e ctx.entryPoint

section

variable {ctx : BuildContext Id} {e : Effect} {pass : String}

theorem requestsFor_append (visits more : List Visit) :
    requestsFor ctx e (visits ++ more) = requestsFor ctx e visits ++ requestsFor ctx e more :=
  List.filterMap_append

theorem reached_append_of_failure {visits : List Visit} {err : BuildError}
    (h : visits.findSome? (Visit.failure? ctx e) = some err) (more : List Visit) :
    reached ctx e (visits ++ more) = reached ctx e visits := by
  induction visits with
  | nil => cases h
  | cons v rest ih =>
    rw [List.findSome?_cons] at h
    rw [List.cons_append, reached, reached]
    cases hv : v.failure? ctx e with
    | some err' => rfl
    | none =>
      rw [hv] at h
      exact congrArg (v :: ·) (ih h)

theorem reached_append_of_success {visits : List Visit}
    (h : visits.findSome? (Visit.failure? ctx e) = none) (more : List Visit) :
    reached ctx e (visits ++ more) = visits ++ reached ctx e more := by
  induction visits with
  | nil => rfl
  | cons v rest ih =>
    obtain ⟨hv, hrest⟩ := List.forall_mem_cons.mp (List.findSome?_eq_none_iff.mp h)
    rw [List.cons_append, reached, hv]
    exact congrArg (v :: ·) (ih (List.findSome?_eq_none_iff.mpr hrest))

theorem reached_eq_self {visits : List Visit}
    (h : visits.findSome? (Visit.failure? ctx e) = none) : reached ctx e visits = visits := by
  have happend := reached_append_of_success h []
  rwa [List.append_nil, reached, List.append_nil] at happend

theorem Stage.records_build (s : Stage) (index : Nat) :
    Records (s.build ctx.recorded e pass index) (s.build ctx e pass index)
      (requestsFor ctx e [⟨pass, index, s⟩]) := by
  unfold Stage.build requestsFor
  rw [List.filterMap_cons, Stage.request?_eq]
  cases s.code? e with
  | none => exact records_ofLogged _
  | some fragment =>
    have hsaid := fun text => records_ofLogged (.say .debug text : Logged BuildError Unit)
    refine (hsaid _).bind_of_ok rfl ((records_ask ctx _).bind_of_ok rfl ?_)
    dsimp only [BuildContext.recorded]
    cases (ctx.compiler (s.request e ctx.entryPoint fragment) ctx.includes).toWords ctx.limit pass
      index s.kind with
    | error failure => exact records_ofLogged _
    | ok code => exact records_ofLogged _

/-- The requests for the stages of a pass are made in order, up to the first failure. -/
theorem records_buildStages (stages : List Stage) (index : Nat) :
    Records (buildStages ctx.recorded e pass index stages) (buildStages ctx e pass index stages)
      (requestsFor ctx e (reached ctx e (visitsFrom pass index stages))) := by
  induction stages generalizing index with
  | nil => exact records_ofLogged _
  | cons s rest ih =>
    have hvisits : visitsFrom pass index (s :: rest) =
        [⟨pass, index, s⟩] ++ visitsFrom pass (index + 1) rest := rfl
    have hsingle : [⟨pass, index, s⟩].findSome? (Visit.failure? ctx e) =
        Visit.failure? ctx e ⟨pass, index, s⟩ := by simp
    have hresult : (s.build ctx e pass index).outcome.result = _ := s.result_build index
    rw [hvisits]
    rcases Visit.outcome_cases ctx e ⟨pass, index, s⟩ with ⟨err, houtcome, hfails⟩ | ⟨houtcome, hok⟩
    · rw [houtcome] at hresult
      rw [reached_append_of_failure (hsingle.trans hfails), reached, hfails]
      exact (s.records_build index).bind_of_error hresult
    · rw [houtcome] at hresult
      rw [reached_append_of_success (hsingle.trans hok), requestsFor_append]
      exact (s.records_build index).bind_of_ok hresult ((ih (index + 1)).bind_pure _)

theorem records_buildPasses (passes : List Pass) :
    Records (buildPasses ctx.recorded e passes) (buildPasses ctx e passes)
      (requestsFor ctx e
        (reached ctx e (passes.flatMap fun p => visitsFrom p.name 0 p.stages))) := by
  induction passes with
  | nil => exact records_ofLogged _
  | cons p rest ih =>
    have hresult : (buildStages ctx e p.name 0 p.stages).outcome.result = _ :=
      result_buildStages p.stages 0
    rw [List.flatMap_cons]
    cases hfirst : (visitsFrom p.name 0 p.stages).findSome? (Visit.failure? ctx e) with
    | some err =>
      rw [hfirst] at hresult
      rw [reached_append_of_failure hfirst]
      exact (records_buildStages p.stages 0).bind_of_error hresult
    | none =>
      have hstages : Records (buildStages ctx.recorded e p.name 0 p.stages)
          (buildStages ctx e p.name 0 p.stages) _ := records_buildStages p.stages 0
      rw [hfirst] at hresult
      rw [reached_eq_self hfirst] at hstages
      rw [reached_append_of_success hfirst, requestsFor_append]
      exact hstages.bind_of_ok hresult (ih.bind_pure _)

theorem Effect.buildRecord_eq (ctx : BuildContext Id) (e : Effect) :
    e.buildRecord ctx =
      ((e.build ctx).outcome.result, requestsFor ctx e (reached ctx e e.visits)) := by
  have hbuild : Records (e.build ctx.recorded) (e.build ctx)
      (requestsFor ctx e (reached ctx e e.visits)) :=
    (records_buildPasses e.passes).bind_pure fun passes => ({ e with passes } : Effect)
  rw [Effect.buildRecord, hbuild []]
  rfl

/-- Either all stages are answered with words, or the first that is not ends the build. -/
theorem Effect.buildRecord_cases (ctx : BuildContext Id) (e : Effect) :
    ((∀ v ∈ e.visits, v.outcome ctx e = .ok (v.stage.answered ctx e)) ∧
      e.buildRecord ctx = (.ok (e.mapStages (Stage.rebuilt ctx e)), requestsFor ctx e e.visits)) ∨
    ∃ before v after err, e.visits = before ++ v :: after ∧
      (∀ w ∈ before, w.outcome ctx e = .ok (w.stage.answered ctx e)) ∧
      v.outcome ctx e = .error err ∧
      e.buildRecord ctx = (.error err, requestsFor ctx e (before ++ [v])) := by
  rw [Effect.buildRecord_eq, Effect.result_build]
  cases hfirst : e.visits.findSome? (Visit.failure? ctx e) with
  | none =>
    refine Or.inl ⟨?_, by rw [reached_eq_self hfirst]; rfl⟩
    intro v hv
    exact Visit.failure?_eq_none.mp (List.findSome?_eq_none_iff.mp hfirst v hv)
  | some err =>
    obtain ⟨before, v, after, hvisits, hfails, hbefore⟩ := List.findSome?_eq_some_iff.mp hfirst
    refine Or.inr ⟨before, v, after, err, hvisits, ?_, Visit.failure?_eq_some.mp hfails, ?_⟩
    · intro w hw
      exact Visit.failure?_eq_none.mp (hbefore w hw)
    · rw [hvisits, reached_append_of_success (List.findSome?_eq_none_iff.mpr hbefore), reached,
        hfails]
      rfl

end

/-- The answer of a compiler that always answers. -/
def Answer.ofVerdict : Except String (List UInt32) → Answer
  | .ok code => .words code
  | .error message => .refused message

/-- A compiler that answers every request, as a function of the request and the include files, and
within the time limit if there is one. -/
def BuildContext.answering
    (verdict : StageRequest → IncludeResolver Id → Except String (List UInt32))
    (includes : IncludeResolver Id) (entryPoint : String) (limit : Option Duration) :
    BuildContext Id where
  compiler request files := .ofVerdict (verdict request files)
  includes := includes
  entryPoint := entryPoint
  limit := limit

/-- The stage has a fragment, of which the compiler makes the given words. -/
def Stage.Yields (ask : StageRequest → Except String (List UInt32)) (e : Effect)
    (entryPoint : String) (s : Stage) (code : List UInt32) : Prop :=
  ∃ request, s.request? e entryPoint = some request ∧ ask request = .ok code

/-- The stage ends a build with an error that tells its place. -/
inductive Visit.Fails (ask : StageRequest → Except String (List UInt32)) (e : Effect)
    (entryPoint : String) (v : Visit) : BuildError → Prop
  | unbound (missing : v.stage.request? e entryPoint = none) :
    Fails ask e entryPoint v (.unbound v.pass v.index v.stage.fragment.name)
  | refused {request : StageRequest} {message : String}
    (asked : v.stage.request? e entryPoint = some request) (answer : ask request = .error message) :
    Fails ask e entryPoint v (.refused v.pass v.index v.stage.kind message)

/-- How a build of an effect without words may go: the result and the requests. -/
inductive Effect.Course (ask : StageRequest → Except String (List UInt32)) (e : Effect)
    (entryPoint : String) : Except BuildError Effect × List StageRequest → Prop
  /-- Every stage has got its words, and nothing else has changed. -/
  | done (words : Stage → List UInt32)
    (yields : ∀ v ∈ e.visits, v.stage.Yields ask e entryPoint (words v.stage)) :
    Course ask e entryPoint
      (.ok (e.withWords words), e.visits.filterMap fun v => v.stage.request? e entryPoint)
  /-- The stage `v` is the first that fails, and the last that was asked for. -/
  | stopped {before after : List Visit} {v : Visit} {err : BuildError}
    (place : e.visits = before ++ v :: after)
    (earlier : ∀ w ∈ before, ∃ code, w.stage.Yields ask e entryPoint code)
    (fails : v.Fails ask e entryPoint err) :
    Course ask e entryPoint
      (.error err, (before ++ [v]).filterMap fun v => v.stage.request? e entryPoint)

section

variable {verdict : StageRequest → IncludeResolver Id → Except String (List UInt32)}
  {includes : IncludeResolver Id} {entryPoint : String} {limit : Option Duration} {e : Effect}

theorem Visit.yields_of_outcome {v : Visit} {code : List UInt32}
    (h : v.outcome (.answering verdict includes entryPoint limit) e = .ok code) :
    v.stage.Yields (fun request => verdict request includes) e entryPoint code := by
  obtain ⟨request, hrequest, hanswer⟩ := Visit.outcome_eq_ok.mp h
  refine ⟨request, hrequest, ?_⟩
  change Answer.ofVerdict (verdict request includes) = .words code at hanswer
  cases hverdict : verdict request includes with
  | error message =>
    rw [hverdict] at hanswer
    cases hanswer
  | ok code' =>
    rw [hverdict] at hanswer
    cases hanswer
    exact hverdict

theorem Visit.fails_of_outcome {v : Visit} {err : BuildError}
    (h : v.outcome (.answering verdict includes entryPoint limit) e = .error err) :
    v.Fails (fun request => verdict request includes) e entryPoint err := by
  cases hrequest : v.stage.request? e entryPoint with
  | none =>
    simp only [Visit.outcome, BuildContext.answering, hrequest] at h
    cases h
    exact .unbound hrequest
  | some request =>
    simp only [Visit.outcome, BuildContext.answering, hrequest] at h
    cases hverdict : verdict request includes with
    | error message =>
      rw [hverdict] at h
      cases h
      exact .refused hrequest hverdict
    | ok code =>
      rw [hverdict] at h
      cases h

end

theorem Stage.request?_isSome {e : Effect} {entryPoint : String} {s : Stage} :
    (s.request? e entryPoint).isSome ↔
      ∃ handle, s.fragment.target = some handle ∧ handle.toNat < e.codeFragments.length := by
  unfold Stage.request?
  cases s.fragment.target with
  | none => simp
  | some handle =>
    cases h : e.codeFragments[handle.toNat]? with
    | none => simpa [h] using List.getElem?_eq_none_iff.mp h
    | some fragment =>
      obtain ⟨hlt, _⟩ := List.getElem?_eq_some_iff.mp h
      simp [hlt]

theorem Stage.exists_yields_iff {ask : StageRequest → Except String (List UInt32)} {e : Effect}
    {entryPoint : String} {s : Stage} :
    (∃ code, s.Yields ask e entryPoint code) ↔
      (∃ handle, s.fragment.target = some handle ∧ handle.toNat < e.codeFragments.length) ∧
      ∀ request, s.request? e entryPoint = some request → ∃ code, ask request = .ok code := by
  rw [← Stage.request?_isSome]
  constructor
  · rintro ⟨code, request, hrequest, hcode⟩
    refine ⟨by rw [hrequest]; rfl, ?_⟩
    intro request' hrequest'
    cases hrequest.symm.trans hrequest'
    exact ⟨code, hcode⟩
  · rintro ⟨hsome, hanswers⟩
    obtain ⟨request, hrequest⟩ := Option.isSome_iff_exists.mp hsome
    obtain ⟨code, hcode⟩ := hanswers request hrequest
    exact ⟨code, request, hrequest, hcode⟩

theorem Visit.Fails.not_yields {ask : StageRequest → Except String (List UInt32)} {e : Effect}
    {entryPoint : String} {v : Visit} {err : BuildError} (h : v.Fails ask e entryPoint err) :
    ¬ ∃ code, v.stage.Yields ask e entryPoint code := by
  rintro ⟨code, request, hrequest, hcode⟩
  cases h with
  | unbound missing => cases missing.symm.trans hrequest
  | refused asked answer =>
    cases asked.symm.trans hrequest
    cases answer.symm.trans hcode

/-- A build of an effect that has no words yet goes its course. -/
theorem Effect.course_buildRecord
    (verdict : StageRequest → IncludeResolver Id → Except String (List UInt32))
    (includes : IncludeResolver Id) (entryPoint : String) (limit : Option Duration) {e : Effect}
    (fresh : ∀ p ∈ e.passes, ∀ s ∈ p.stages, s.bytecode = []) :
    e.Course (fun request => verdict request includes) entryPoint
      (e.buildRecord (.answering verdict includes entryPoint limit)) := by
  rcases e.buildRecord_cases (.answering verdict includes entryPoint limit) with
    ⟨hall, hrecord⟩ | ⟨before, v, after, err, hvisits, hbefore, hfails, hrecord⟩
  · have hwords : e.mapStages (Stage.rebuilt (.answering verdict includes entryPoint limit) e) =
        e.withWords (Stage.answered (.answering verdict includes entryPoint limit) e) := by
      refine Effect.mapStages_inj.mpr fun v hv => ?_
      rw [Stage.rebuilt, Effect.forall_visits.mpr fresh v hv, List.nil_append]
    rw [hrecord, hwords]
    exact .done _ fun v hv => Visit.yields_of_outcome (hall v hv)
  · rw [hrecord]
    exact .stopped hvisits (fun w hw => ⟨_, Visit.yields_of_outcome (hbefore w hw)⟩)
      (Visit.fails_of_outcome hfails)

theorem exists_of_forall₂ {α β : Type} {relation : α → β → Prop} {as : List α} {bs : List β}
    (h : List.Forall₂ relation as bs) {b : β} (hb : b ∈ bs) : ∃ a ∈ as, relation a b := by
  induction h with
  | nil => cases hb
  | cons hab _ ih =>
    rcases List.mem_cons.mp hb with rfl | hb
    · exact ⟨_, List.mem_cons_self, hab⟩
    · obtain ⟨a, ha, hrelation⟩ := ih hb
      exact ⟨a, List.mem_cons_of_mem _ ha, hrelation⟩

/-- Resolution gives every stage a fragment. An index that was cut to a word is no larger than it
was, so it is still in range. -/
theorem Effect.ResolvedAs.request?_isSome {before after : Effect} (h : before.ResolvedAs after)
    (entryPoint : String) :
    ∀ p ∈ after.passes, ∀ s ∈ p.stages, (s.request? after entryPoint).isSome := by
  intro p hp s hs
  obtain ⟨p', _, hpass⟩ := exists_of_forall₂ h.passes hp
  obtain ⟨s', _, hstage⟩ := exists_of_forall₂ hpass.stages hs
  obtain ⟨n, fragment, ⟨hget, _⟩, hlink⟩ := hstage.fragment
  obtain ⟨hn, _⟩ := List.getElem?_eq_some_iff.mp hget
  have hfragments : after.codeFragments = before.codeFragments := by rw [h.rest]
  refine Stage.request?_isSome.mpr ⟨UInt32.ofNat n, by rw [hlink], ?_⟩
  have hcut : (UInt32.ofNat n).toNat ≤ n := by
    rw [UInt32.toNat_ofNat']
    exact Nat.mod_le _ _
  rw [hfragments]
  omega

theorem Effect.request?_of_load {source path : String} {e : Effect}
    (loaded : (Effect.load source path).result = .ok e) (entryPoint : String) :
    ∀ p ∈ e.passes, ∀ s ∈ p.stages, (s.request? e entryPoint).isSome := by
  obtain ⟨parsed, _, hok, rfl⟩ := Effect.result_load_eq_ok.mp loaded
  exact ((parsed.locate path).settles_resolve.value hok).request?_isSome entryPoint

/-- The first failure is of a stage that has no fragment only if there is such a stage. -/
theorem Effect.buildRecord_ne_unbound {ctx : BuildContext Id} {e : Effect}
    (bound : ∀ p ∈ e.passes, ∀ s ∈ p.stages, (s.request? e ctx.entryPoint).isSome)
    (pass : String) (index : Nat) (fragment : String) :
    (e.buildRecord ctx).1 ≠ .error (.unbound pass index fragment) := by
  have hanswer : ∀ (answer : Answer) (v : Visit),
      answer.toWords ctx.limit v.pass v.index v.stage.kind ≠
        .error (.unbound pass index fragment) := by
    intro answer v
    cases answer <;> cases ctx.limit <;> simp [Answer.toWords]
  rcases e.buildRecord_cases ctx with
    ⟨_, hrecord⟩ | ⟨before, v, after, err, hvisits, _, hfails, hrecord⟩
  · rw [hrecord]
    intro h
    cases h
  · rw [hrecord]
    intro h
    cases h
    have hv : v ∈ e.visits := by simp [hvisits]
    obtain ⟨request, hrequest⟩ := Option.isSome_iff_exists.mp (Effect.forall_visits.mpr bound v hv)
    rw [Visit.outcome, hrequest] at hfails
    exact hanswer _ v hfails

/-- A build visits the stages in order and asks once for each, up to and including the first that
fails. It succeeds exactly when every stage has a fragment and is answered with words; these are
then the words of the stage, and nothing else has changed. The error of a failed build tells the
place of the first stage that failed. No stage of a loaded effect lacks its fragment. -/
theorem Effect.build_visits_in_order
    (verdict : StageRequest → IncludeResolver Id → Except String (List UInt32))
    (includes : IncludeResolver Id) (entryPoint : String) (limit : Option Duration) (e : Effect)
    (fresh : ∀ p ∈ e.passes, ∀ s ∈ p.stages, s.bytecode = []) :
    let ask := fun request => verdict request includes
    let record := e.buildRecord (.answering verdict includes entryPoint limit)
    e.Course ask entryPoint record ∧
    ((∃ built, record.1 = .ok built) ↔
      ∀ p ∈ e.passes, ∀ s ∈ p.stages,
        (∃ handle, s.fragment.target = some handle ∧ handle.toNat < e.codeFragments.length) ∧
        ∀ request, s.request? e entryPoint = some request → ∃ code, ask request = .ok code) ∧
    ∀ (source path : String) (loaded : Effect), (Effect.load source path).result = .ok loaded →
      ∀ (ctx : BuildContext Id) (pass : String) (index : Nat) (fragment : String),
        (loaded.buildRecord ctx).1 ≠ .error (.unbound pass index fragment) := by
  intro ask record
  have hcourse : e.Course ask entryPoint record :=
    Effect.course_buildRecord verdict includes entryPoint limit fresh
  refine ⟨hcourse, ?_, ?_⟩
  · clear_value record
    simp only [← Stage.exists_yields_iff]
    rw [← Effect.forall_visits]
    constructor
    · rintro ⟨built, hbuilt⟩
      cases hcourse with
      | done words yields => exact fun v hv => ⟨_, yields v hv⟩
      | stopped place earlier fails => cases hbuilt
    · intro hall
      cases hcourse with
      | done words yields => exact ⟨_, rfl⟩
      | stopped place earlier fails => exact absurd (hall _ (by simp [place])) fails.not_yields
  · intro source path loaded hloaded ctx
    exact Effect.buildRecord_ne_unbound (Effect.request?_of_load hloaded _)

/-- Three stages in two passes; the first and the last share a fragment. -/
def threeStages : Effect where
  name := "E"
  sourcePath := "E.kfx"
  codeFragments := [⟨"F", "f"⟩, ⟨"G", "g"⟩]
  passes := [
    { name := "P"
      stages := [
        { kind := .vertex, fragment := ⟨"F", some 0⟩ },
        { kind := .fragment, fragment := ⟨"G", some 1⟩ }] },
    { name := "Q", stages := [{ kind := .compute, fragment := ⟨"F", some 0⟩ }] }]

/-- Understands every stage but those of one kind. -/
def verdictWithout (kind : StageKind) (request : StageRequest) (_ : IncludeResolver Id) :
    Except String (List UInt32) :=
  if request.stage = kind then .error "no" else .ok [7]

theorem threeStages_visited_in_order :
    (∀ p ∈ threeStages.passes, ∀ s ∈ p.stages, s.bytecode = []) ∧
    threeStages.Course (fun request => verdictWithout .fragment request .error) "main"
      (.error (.refused "P" 1 .fragment "no"),
        [⟨"f", .vertex, "main", [("VERTEX", "1")], "E.kfx:F"⟩,
          ⟨"g", .fragment, "main", [("FRAGMENT", "1")], "E.kfx:G"⟩]) ∧
    (∃ built, (threeStages.buildRecord
      (.answering (verdictWithout .geometry) .error "main" none)).1 = .ok built) ∧
    (Effect.load tintSource "E.kfx").result = .ok (tintEffect.withWords fun _ => []) ∧
    ((tintEffect.withWords fun _ => []).buildRecord lengthContext).1 ≠
      .error (.unbound "P" 0 "F") := by
  have fresh : ∀ p ∈ threeStages.passes, ∀ s ∈ p.stages, s.bytecode = [] := by decide +kernel
  have hloaded : (Effect.load tintSource "E.kfx").result =
      .ok (tintEffect.withWords fun _ => []) := by decide +kernel
  have hrecord : threeStages.buildRecord
      (.answering (verdictWithout .fragment) .error "main" none) =
        (.error (.refused "P" 1 .fragment "no"),
          [⟨"f", .vertex, "main", [("VERTEX", "1")], "E.kfx:F"⟩,
            ⟨"g", .fragment, "main", [("FRAGMENT", "1")], "E.kfx:G"⟩]) := by decide +kernel
  obtain ⟨hcourse, _⟩ :=
    Effect.build_visits_in_order (verdictWithout .fragment) .error "main" none threeStages fresh
  obtain ⟨_, hsucceeds, hbound⟩ :=
    Effect.build_visits_in_order (verdictWithout .geometry) .error "main" none threeStages fresh
  rw [hrecord] at hcourse
  refine ⟨fresh, hcourse, hsucceeds.mpr ?_, hloaded, hbound _ _ _ hloaded _ _ _ _⟩
  simp [threeStages, Stage.request?, verdictWithout]

end Kfx
