import Kfx.Proofs.Batch.Independence
import Kfx.Proofs.Files.Changes

/-!
# The course of a job

A job goes from its source to its files. Up to the bytes of the artifact it only reads, if the
compiler writes no files itself; from there on it makes directories and then writes one file after
another up to the first that fails, the artifact first. A batch is a course of jobs.
-/
namespace Kfx

open Kfx.Path

section

variable {σ ε ε' α β : Type}

def Quiet (x : StateM σ α) : Prop :=
  ∀ st, (x.run st).2 = st

theorem quiet_pure (a : α) : Quiet (pure a : StateM σ α) :=
  fun _ => rfl

theorem Quiet.bind {x : StateM σ α} {f : α → StateM σ β} (hx : Quiet x) (hf : ∀ a, Quiet (f a)) :
    Quiet (x >>= f) := by
  intro st
  have hrun : x.run st = ((x.run st).1, st) := Prod.ext rfl (hx st)
  rw [run_bind_of_run hrun, hf]

/-- The same for computations with diagnostics. -/
def QuietLogged (x : LoggedT ε (StateM σ) α) : Prop :=
  ∀ st, (x.runFrom st).2 = st

theorem quietLogged_ofLogged (x : Logged ε α) :
    QuietLogged (LoggedT.ofLogged x : LoggedT ε (StateM σ) α) :=
  fun _ => rfl

theorem QuietLogged.bind {x : LoggedT ε (StateM σ) α} {f : α → LoggedT ε (StateM σ) β}
    (hx : QuietLogged x) (hf : ∀ a, QuietLogged (f a)) : QuietLogged (x >>= f) := by
  intro st
  have hstate := hx st
  rw [LoggedT.runFrom_bind]
  split
  · next h => rwa [h] at hstate
  · next a st' h =>
    rw [h] at hstate
    rw [hf a]
    exact hstate

end

/-- A compiler that changes no file where reading its include files changes none. -/
def KeepsFiles (compiler : Compiler (StateM FileTree)) : Prop :=
  ∀ request includes, (∀ name, Quiet (includes name)) → Quiet (compiler request includes)

section

variable {ctx : BuildContext (StateM FileTree)} {e : Effect}

theorem quiet_buildStage (hcompiler : ∀ request, Quiet (ctx.compiler request ctx.includes))
    (pass : String) (index : Nat) (st : Stage) : QuietLogged (st.build ctx e pass index) := by
  unfold Stage.build
  cases st.code? e with
  | none => exact quietLogged_ofLogged _
  | some fragment =>
    refine QuietLogged.bind (quietLogged_ofLogged _) fun _ => ?_
    refine QuietLogged.bind (fun t => hcompiler _ t) fun answer => ?_
    cases answer.toWords ctx.limit pass index st.kind with
    | error failure => exact quietLogged_ofLogged _
    | ok code => exact quietLogged_ofLogged _

theorem quiet_buildStages (hcompiler : ∀ request, Quiet (ctx.compiler request ctx.includes))
    (pass : String) (index : Nat) (stages : List Stage) :
    QuietLogged (buildStages ctx e pass index stages) := by
  induction stages generalizing index with
  | nil => exact quietLogged_ofLogged _
  | cons st stages ih =>
    refine QuietLogged.bind (quiet_buildStage hcompiler pass index st) fun _ => ?_
    exact (ih (index + 1)).bind fun _ => quietLogged_ofLogged _

theorem quiet_build (hcompiler : ∀ request, Quiet (ctx.compiler request ctx.includes)) :
    QuietLogged (e.build ctx) := by
  have hpasses : ∀ passes, QuietLogged (buildPasses ctx e passes) := by
    intro passes
    induction passes with
    | nil => exact quietLogged_ofLogged _
    | cons p passes ih =>
      refine QuietLogged.bind (quiet_buildStages hcompiler p.name 0 p.stages) fun _ => ?_
      exact ih.bind fun _ => quietLogged_ofLogged _
  exact (hpasses e.passes).bind fun _ => quietLogged_ofLogged _

end

def FileTree.readText (t : FileTree) (path : String) : Except FileFault String :=
  (t.readBytes path).bind fun bytes =>
    match String.fromUTF8? ⟨bytes.toArray⟩ with
    | some text => .ok text
    | none => .error .notText

def FileTree.loaded (t : FileTree) (source : String) : Except SourceError Effect :=
  ((t.readText source).mapError (.unreadable source)).bind fun text =>
    (Effect.load text source).result.mapError .load

theorem FileTree.readText_eq_ok {t : FileTree} {path text : String} : t.readText path = .ok text ↔
    ∃ bytes, t.readBytes path = .ok bytes ∧ String.fromUTF8? ⟨bytes.toArray⟩ = some text := by
  unfold readText
  cases t.readBytes path with
  | error fault => simp [Except.bind]
  | ok bytes =>
    simp only [Except.bind, Except.ok.injEq, exists_eq_left']
    cases String.fromUTF8? ⟨bytes.toArray⟩ <;> simp

theorem FileTree.loaded_eq_ok {t : FileTree} {source : String} {e : Effect} :
    t.loaded source = .ok e ↔
      ∃ text, t.readText source = .ok text ∧ (Effect.load text source).result = .ok e := by
  unfold loaded
  cases t.readText source with
  | error fault =>
    constructor
    · intro h
      cases h
    · rintro ⟨_, ⟨⟩, _⟩
  | ok text =>
    constructor
    · intro h
      exact ⟨text, rfl, Logged.result_mapError_eq_ok.mp h⟩
    · rintro ⟨_, ⟨⟩, h⟩
      exact Logged.result_mapError_eq_ok.mpr h

theorem readText_run (t : FileTree) (path : String) :
    (FileTree.files.readText path).run t = (t.readText path, t) := by
  have hread : (FileTree.files.readBytes path).run t = (t.readBytes path, t) := rfl
  rw [Files.readText, run_bind_of_run hread, FileTree.readText]
  cases t.readBytes path with
  | error fault => rfl
  | ok bytes =>
    simp only [Except.bind]
    cases String.fromUTF8? ⟨bytes.toArray⟩ <;> rfl

theorem runFrom_loadSource (t : FileTree) (source : String) :
    (loadSource FileTree.files source).runFrom t = (t.loaded source, t) := by
  rw [loadSource, LoggedT.runFrom_bind, LoggedT.runFrom_orFail, readText_run, FileTree.loaded]
  cases t.readText source <;> rfl

theorem quiet_fileIncludes (source name : String) :
    Quiet (fileIncludes FileTree.files source name) := by
  refine Quiet.bind (fun t => ?_) fun answer => ?_
  · rw [readText_run]
  · cases answer with
    | error fault => exact quiet_pure _
    | ok text => exact quiet_pure _

section

variable {compiler : Compiler (StateM FileTree)} {s : Settings} {source : String} {t : FileTree}

/-- The built effect of a source file and its artifact. -/
def prepared (compiler : Compiler (StateM FileTree)) (s : Settings) (source : String)
    (t : FileTree) : Except SourceError (Effect × List UInt8) :=
  ((compileFile FileTree.files (s.buildContext FileTree.files compiler source) source).runFrom
    t).1.bind fun built => (built.serialize.mapError .format).map fun bytes => (built, bytes)

/-- What a job has to write: the artifact, and if wanted the words of every stage. -/
def Settings.outputs (s : Settings) (source : String) (built : Effect) (bytes : List UInt8) :
    List (String × List UInt8) :=
  (s.artifactFor source built, bytes) :: if s.emitSpirv then s.dumps source built else []

theorem mem_dumps {built : Effect} {path : String} {written : List UInt8}
    (h : (path, written) ∈ s.dumps source built) :
    ∃ p ∈ built.passes, ∃ st ∈ p.stages, path = s.dumpFor source built p st ∧
      written = wordsToBytes st.bytecode := by
  obtain ⟨p, hp, hw⟩ := List.mem_flatMap.mp h
  obtain ⟨st, hst, heq⟩ := List.mem_map.mp hw
  obtain ⟨rfl, rfl⟩ := Prod.mk.inj heq
  exact ⟨p, hp, st, hst, rfl, rfl⟩

/-- How a job runs: the files it writes, what it comes to and the tree it leaves. -/
inductive JobRuns (compiler : Compiler (StateM FileTree)) (s : Settings) (source : String)
    (t : FileTree) : List (String × List UInt8) → Except SourceError Outcome → FileTree → Prop
  | checked (hcheck : s.checkOnly = true) :
      JobRuns compiler s source t [] ((t.loaded source).map fun _ => .checked) t
  | unprepared {err : SourceError} (hcheck : s.checkOnly = false)
      (hprepared : prepared compiler s source t = .error err) :
      JobRuns compiler s source t [] (.error err) t
  | noDirectory {built : Effect} {bytes : List UInt8} {t' : FileTree} {fault : FileFault}
      (hcheck : s.checkOnly = false) (hprepared : prepared compiler s source t = .ok (built, bytes))
      (hchanges : t.Changes [] t') (hne : s.outputFor source ≠ "")
      (hnone : t'.isDirectory (s.outputFor source) = false) :
      JobRuns compiler s source t [] (.error (.noDirectory (s.outputFor source) fault)) t'
  | stopped {built : Effect} {bytes written : List UInt8} {t' : FileTree} {fault : FileFault}
      {done rest : List (String × List UInt8)} {path : String}
      (hcheck : s.checkOnly = false) (hprepared : prepared compiler s source t = .ok (built, bytes))
      (hchanges : t.Changes done t')
      (houtputs : s.outputs source built bytes = done ++ (path, written) :: rest)
      (hfault : t'.write path written = .error fault) :
      JobRuns compiler s source t done (.error (.unwritable path fault)) t'
  | finished {built : Effect} {bytes : List UInt8} {t' : FileTree}
      (hcheck : s.checkOnly = false) (hprepared : prepared compiler s source t = .ok (built, bytes))
      (hchanges : t.Changes (s.outputs source built bytes) t') :
      JobRuns compiler s source t (s.outputs source built bytes)
        (.ok (.written (s.artifactFor source built))) t'

theorem JobRuns.changes {ws : List (String × List UInt8)} {result : Except SourceError Outcome}
    {t' : FileTree} (h : JobRuns compiler s source t ws result t') : t.Changes ws t' := by
  cases h with
  | checked => exact .nil
  | unprepared => exact .nil
  | noDirectory _ _ hchanges => exact hchanges
  | stopped _ _ hchanges => exact hchanges
  | finished _ _ hchanges => exact hchanges

theorem JobRuns.of_written {ws : List (String × List UInt8)} {artifact : String} {t' : FileTree}
    (h : JobRuns compiler s source t ws (.ok (.written artifact)) t') :
    ∃ built bytes, prepared compiler s source t = .ok (built, bytes) ∧
      artifact = s.artifactFor source built ∧ t.Changes (s.outputs source built bytes) t' := by
  generalize hresult : (Except.ok (.written artifact) : Except SourceError Outcome) = result at h
  cases h with
  | checked => cases hloaded : t.loaded source <;> rw [hloaded] at hresult <;> cases hresult
  | unprepared => cases hresult
  | noDirectory => cases hresult
  | stopped => cases hresult
  | finished _ hprepared hchanges =>
    cases hresult
    exact ⟨_, _, hprepared, rfl, hchanges⟩

/-- Writing goes on up to the first file that fails. -/
theorem runFrom_writeAll (todo : List (String × List UInt8)) (t : FileTree) :
    (∃ t', (writeAll FileTree.files todo).runFrom t = (.ok (), t') ∧ t.Changes todo t') ∨
      ∃ done path bytes rest fault t', todo = done ++ (path, bytes) :: rest ∧
        t.Changes done t' ∧ t'.write path bytes = .error fault ∧
        (writeAll FileTree.files todo).runFrom t = (.error (.unwritable path fault), t') := by
  induction todo generalizing t with
  | nil => exact Or.inl ⟨t, rfl, .nil⟩
  | cons w todo ih =>
    obtain ⟨path, bytes⟩ := w
    have hfirst := LoggedT.runFrom_orFail (SourceError.unwritable path)
      (FileTree.files.write path bytes) t
    cases hwrite : t.write path bytes with
    | error fault =>
      have hrun : (FileTree.files.write path bytes).run t = (.error fault, t) :=
        FileTree.step_run_of_error hwrite
      rw [hrun] at hfirst
      refine Or.inr ⟨[], path, bytes, todo, fault, t, rfl, .nil, hwrite, ?_⟩
      exact LoggedT.runFrom_bind_of_error hfirst
    | ok t₁ =>
      have hwritten : (FileTree.files.write path bytes).run t = (.ok (), t₁) :=
        FileTree.step_run_of_ok hwrite
      rw [hwritten] at hfirst
      have hrun : (writeAll FileTree.files ((path, bytes) :: todo)).runFrom t =
          (writeAll FileTree.files todo).runFrom t₁ := LoggedT.runFrom_bind_of_ok hfirst
      rw [hrun]
      rcases ih t₁ with ⟨t', hok, hall⟩ |
        ⟨done, path', bytes', rest, fault, t', htodo, hdone, hfault, herror⟩
      · exact Or.inl ⟨t', hok, .file hwrite hall⟩
      · refine Or.inr ⟨(path, bytes) :: done, path', bytes', rest, fault, t', ?_,
          .file hwrite hdone, hfault, herror⟩
        rw [htodo, List.cons_append]

/-- A job that only checks its source. -/
theorem runFrom_compileOne_of_check (compiler : Compiler (StateM FileTree))
    (hcheck : s.checkOnly = true) (source : String) (t : FileTree) :
    (compileOne FileTree.files compiler s source).runFrom t =
      ((t.loaded source).map fun _ => .checked, t) := by
  rw [compileOne, LoggedT.runFrom_bind, runFrom_loadSource]
  cases t.loaded source with
  | error err => rfl
  | ok e =>
    dsimp only
    rw [if_pos hcheck]
    rfl

/-- An artifact is made from a source that was loaded and built. -/
theorem prepared_eq_ok {built : Effect} {bytes : List UInt8}
    (h : prepared compiler s source t = .ok (built, bytes)) :
    (∃ e t', t.loaded source = .ok e ∧
      (e.build (s.buildContext FileTree.files compiler source)).runFrom t = (.ok built, t')) ∧
    built.serialize = .ok bytes := by
  obtain ⟨answer, t', hrun⟩ : ∃ answer t', (compileFile FileTree.files
      (s.buildContext FileTree.files compiler source) source).runFrom t = (answer, t') :=
    ⟨_, _, rfl⟩
  rw [prepared, hrun] at h
  obtain err | made := answer
  · cases h
  dsimp only [Except.bind] at h
  cases hbytes : made.serialize with
  | error err =>
    rw [hbytes] at h
    cases h
  | ok bytes' =>
    rw [hbytes] at h
    cases h
    refine ⟨?_, hbytes⟩
    obtain ⟨e, t₁, hload, hbuild⟩ := LoggedT.runFrom_bind_eq_ok.mp hrun
    rw [runFrom_loadSource] at hload
    obtain ⟨hloaded, rfl⟩ := Prod.mk.inj hload
    exact ⟨e, t', hloaded, LoggedT.runFrom_mapError_eq_ok.mp hbuild⟩

theorem readBytes_of_prepared {built : Effect} {bytes : List UInt8}
    (h : prepared compiler s source t = .ok (built, bytes)) :
    ∃ read, t.readBytes source = .ok read := by
  obtain ⟨⟨e, _, hloaded, _⟩, _⟩ := prepared_eq_ok h
  obtain ⟨text, htext, _⟩ := FileTree.loaded_eq_ok.mp hloaded
  obtain ⟨bytes, hread, _⟩ := FileTree.readText_eq_ok.mp htext
  exact ⟨bytes, hread⟩

/-- Building leaves the files as they are. -/
theorem runFrom_build (hcompiler : KeepsFiles compiler) (s : Settings) (source : String)
    (e : Effect) (t : FileTree) :
    ∃ answer, ((e.build (s.buildContext FileTree.files compiler source)).mapError
      SourceError.build).runFrom t = (answer, t) := by
  have hquiet : ((e.build (s.buildContext FileTree.files compiler source)).runFrom t).2 = t :=
    quiet_build (fun _ => hcompiler _ _ (quiet_fileIncludes source)) t
  exact ⟨_, by rw [LoggedT.runFrom_mapError, hquiet]⟩

/-- The artifact and the words of the stages are written one after another. -/
theorem runFrom_outputs (built : Effect) (bytes : List UInt8) :
    (do LoggedT.orFail (.unwritable (s.artifactFor source built))
          (FileTree.files.write (s.artifactFor source built) bytes)
        if s.emitSpirv then writeAll FileTree.files (s.dumps source built)
        LoggedT.say .info s!"{source} -> {s.artifactFor source built} ({bytes.length} bytes)"
        return Outcome.written (s.artifactFor source built) :
      LoggedT SourceError (StateM FileTree) Outcome).runFrom t =
    ((writeAll FileTree.files (s.outputs source built bytes)).runFrom t).map
      (·.map fun _ => .written (s.artifactFor source built)) id := by
  rw [Settings.outputs, writeAll, LoggedT.runFrom_bind, LoggedT.runFrom_bind]
  rcases LoggedT.runFrom _ t with ⟨_ | _, t₁⟩
  · rfl
  · dsimp only
    cases s.emitSpirv with
    | false => rfl
    | true =>
      rw [if_pos rfl, if_pos rfl, LoggedT.runFrom_bind]
      rcases LoggedT.runFrom _ t₁ with ⟨_ | _, t₂⟩ <;> rfl

/-- Once there is something to write, directories are made and then the files are written. -/
theorem jobRuns_of_prepared {built : Effect} {bytes : List UInt8} (hcheck : s.checkOnly = false)
    (hprepared : prepared compiler s source t = .ok (built, bytes)) :
    ∃ ws result t', (do
        LoggedT.orFail (.noDirectory (s.outputFor source))
          (FileTree.files.makeDirectories (s.outputFor source))
        LoggedT.orFail (.unwritable (s.artifactFor source built))
          (FileTree.files.write (s.artifactFor source built) bytes)
        if s.emitSpirv then writeAll FileTree.files (s.dumps source built)
        LoggedT.say .info s!"{source} -> {s.artifactFor source built} ({bytes.length} bytes)"
        return Outcome.written (s.artifactFor source built) :
      LoggedT SourceError (StateM FileTree) Outcome).runFrom t = (result, t') ∧
      JobRuns compiler s source t ws result t' := by
  obtain ⟨made, t₁, hmake, hdirs, hfault⟩ := t.makeDirectories_run (s.outputFor source)
  have hdirectory : (LoggedT.orFail (.noDirectory (s.outputFor source))
      (FileTree.files.makeDirectories (s.outputFor source)) :
        LoggedT SourceError (StateM FileTree) Unit).runFrom t =
          (made.mapError (.noDirectory (s.outputFor source)), t₁) := by
    rw [LoggedT.runFrom_orFail, hmake]
  cases made with
  | error fault =>
    obtain ⟨hne, hnone⟩ := hfault fault rfl
    exact ⟨_, _, t₁, LoggedT.runFrom_bind_of_error hdirectory,
      .noDirectory hcheck hprepared hdirs hne hnone⟩
  | ok _ =>
    rw [LoggedT.runFrom_bind_of_ok hdirectory, runFrom_outputs]
    rcases runFrom_writeAll (s.outputs source built bytes) t₁ with ⟨t', hok, hall⟩ |
      ⟨done, path, written, rest, fault, t', houtputs, hdone, hwrite, herror⟩
    · rw [hok]
      exact ⟨_, _, t', rfl, .finished hcheck hprepared (hdirs.trans hall)⟩
    · rw [herror]
      exact ⟨_, _, t', rfl, .stopped hcheck hprepared (hdirs.trans hdone) houtputs hwrite⟩

/-- Every job runs in one of these ways. -/
theorem jobRuns (hcompiler : KeepsFiles compiler) (s : Settings) (source : String) (t : FileTree) :
    ∃ ws result t', (compileOne FileTree.files compiler s source).runFrom t = (result, t') ∧
      JobRuns compiler s source t ws result t' := by
  cases hcheck : s.checkOnly with
  | true => exact ⟨_, _, _, runFrom_compileOne_of_check compiler hcheck source t, .checked hcheck⟩
  | false =>
    have hloading := runFrom_loadSource t source
    unfold compileOne
    cases hload : t.loaded source with
    | error err =>
      rw [hload] at hloading
      refine ⟨_, _, _, LoggedT.runFrom_bind_of_error hloading, .unprepared hcheck ?_⟩
      rw [prepared, compileFile, LoggedT.runFrom_bind_of_error hloading]
      rfl
    | ok e =>
      rw [hload] at hloading
      obtain ⟨answer, hbuild⟩ := runFrom_build hcompiler s source e t
      have hprepared : prepared compiler s source t = answer.bind fun built =>
          (built.serialize.mapError .format).map fun bytes => (built, bytes) := by
        rw [prepared, compileFile, LoggedT.runFrom_bind_of_ok hloading, hbuild]
      rw [LoggedT.runFrom_bind_of_ok hloading, hcheck, if_neg Bool.false_ne_true]
      cases answer with
      | error err =>
        exact ⟨_, _, _, LoggedT.runFrom_bind_of_error hbuild, .unprepared hcheck hprepared⟩
      | ok built =>
        have hserialize : (LoggedT.orFail .format (pure built.serialize) :
            LoggedT SourceError (StateM FileTree) (List UInt8)).runFrom t =
              (built.serialize.mapError .format, t) := rfl
        rw [LoggedT.runFrom_bind_of_ok hbuild]
        dsimp only [Except.bind] at hprepared
        cases hbytes : built.serialize with
        | error err =>
          rw [hbytes] at hserialize hprepared
          exact ⟨_, _, _, LoggedT.runFrom_bind_of_error hserialize, .unprepared hcheck hprepared⟩
        | ok bytes =>
          rw [hbytes] at hserialize hprepared
          rw [LoggedT.runFrom_bind_of_ok hserialize]
          exact jobRuns_of_prepared hcheck hprepared

theorem runFrom_eq_runJob (compiler : Compiler (StateM FileTree)) (s : Settings) (source : String)
    (t : FileTree) : (compileOne FileTree.files compiler s source).runFrom t =
      ((runJob compiler s source t).1.result, (runJob compiler s source t).2) := rfl

theorem jobRuns_of_runFrom {result : Except SourceError Outcome} {t' : FileTree}
    (hcompiler : KeepsFiles compiler)
    (hrun : (compileOne FileTree.files compiler s source).runFrom t = (result, t')) :
    ∃ ws, JobRuns compiler s source t ws result t' := by
  obtain ⟨ws, result₁, t₁, hrun₁, hruns⟩ := jobRuns hcompiler s source t
  rw [hrun] at hrun₁
  cases hrun₁
  exact ⟨ws, hruns⟩

theorem jobRuns_of_runJob {answer : Logged SourceError Outcome} {t' : FileTree}
    (hcompiler : KeepsFiles compiler) (hjob : runJob compiler s source t = (answer, t')) :
    ∃ ws, JobRuns compiler s source t ws answer.result t' :=
  jobRuns_of_runFrom hcompiler (by rw [runFrom_eq_runJob, hjob])

theorem quiet_collectSources (path ext : String) :
    Quiet (collectSources FileTree.files path ext) := by
  refine Quiet.bind (fun _ => rfl) fun isFile => ?_
  cases isFile with
  | true => exact quiet_pure _
  | false =>
    refine Quiet.bind (fun _ => rfl) fun isDirectory => ?_
    cases isDirectory with
    | false => exact quiet_pure _
    | true =>
      refine Quiet.bind (fun _ => rfl) fun listed => ?_
      cases listed with
      | error fault => exact quiet_pure _
      | ok names =>
        refine Quiet.bind (fun t => ?_) fun _ => quiet_pure _
        rw [sourceNames_run]

/-- A batch that cannot start leaves the files as they are; any other takes its sources in turn. -/
theorem runBatch_cases (compiler : Compiler (StateM FileTree)) (s : Settings) (parallelism : Nat)
    (path : String) (t : FileTree) :
    (∃ err, ((runBatch FileTree.files compiler s parallelism path).run t).1.result = .error err ∧
      ((runBatch FileTree.files compiler s parallelism path).run t).2 = t) ∨
    ∃ sources outcome, sources ≠ [] ∧
      (collectSources FileTree.files path s.sourceExtension).run t = (.ok sources, t) ∧
      ((runBatch FileTree.files compiler s parallelism path).run t).1.result =
        .ok (Report.inTurn outcome sources) ∧
      TakenInTurn compiler s outcome t sources.zipIdx
        ((runBatch FileTree.files compiler s parallelism path).run t).2 := by
  obtain ⟨found, hfound⟩ : ∃ found,
      (collectSources FileTree.files path s.sourceExtension).run t = (found, t) :=
    ⟨_, Prod.ext rfl (quiet_collectSources path s.sourceExtension t)⟩
  cases found with
  | error err =>
    refine Or.inl ⟨err, ?_⟩
    rw [runBatch, run_bind_of_run hfound]
    exact ⟨rfl, rfl⟩
  | ok sources =>
    cases sources with
    | nil =>
      refine Or.inl ⟨.noSources s.sourceExtension path, ?_⟩
      rw [runBatch, run_bind_of_run hfound]
      exact ⟨rfl, rfl⟩
    | cons source sources =>
      obtain ⟨outcome, htaken, hresult⟩ := runBatch_run compiler s parallelism hfound (by simp)
      exact Or.inr ⟨_, outcome, by simp, hfound, hresult, htaken⟩

/-- A batch of a single file. -/
theorem runBatch_of_isFile (compiler : Compiler (StateM FileTree)) (s : Settings)
    (parallelism : Nat) (hfile : t.isFile source = true) :
    ((runBatch FileTree.files compiler s parallelism source).run t).1.result =
      .ok (Report.add {} ⟨0, source, (runJob compiler s source t).1.result⟩) ∧
    ((runBatch FileTree.files compiler s parallelism source).run t).2 =
      (runJob compiler s source t).2 := by
  have hsources : (collectSources FileTree.files source s.sourceExtension).run t =
      (.ok [source], t) := by
    have hisFile : (FileTree.files.isFile source).run t = (true, t) := by
      rw [← hfile]
      rfl
    rw [collectSources, run_bind_of_run hisFile]
    rfl
  obtain ⟨outcome, htaken, hresult⟩ := runBatch_run compiler s parallelism hsources (by simp)
  generalize ((runBatch FileTree.files compiler s parallelism source).run t).2 = t' at htaken ⊢
  cases htaken with
  | cons hjob hanswer hrest =>
    cases hrest
    rw [hresult, hjob, hanswer]
    exact ⟨rfl, rfl⟩

end

def oneSource (name text : String) : FileTree where
  entries := [(["in"], .directory), (["in", name], .file text.toByteArray.data.toList)]
  here := []

theorem oneSource_wellFormed {name : String} (hname : IsName name) (text : String) :
    (oneSource name text).WellFormed where
  names := by simp [oneSource, IsName, hname.1, hname.2.1, hname.2.2.1, hname.2.2.2]
  here := by simp [oneSource]
  distinct := by simp [oneSource]
  inDirectory := by
    intro e he
    simp only [oneSource, List.mem_cons, List.not_mem_nil, or_false] at he
    rcases he with rfl | rfl <;> rfl

theorem keepsFiles_constantCompiler : KeepsFiles constantCompiler :=
  fun _ _ _ => quiet_pure _

def wordsWanted : Settings := { outputDir := some "out", emitSpirv := true }

end Kfx
