import Mathlib.Data.List.Basic
import Kfx.Proofs.Batch.Course

/-!
# What a failure leaves behind

A job that fails has written no file, unless it failed at a file with the words of a stage: the
artifact is there by then. So a batch that does not write such files writes the artifacts in its
report and nothing else.
-/
namespace Kfx

open Kfx.Path

section

variable {compiler : Compiler (StateM FileTree)} {s : Settings} {source : String} {t t' : FileTree}
  {built : Effect} {bytes : List UInt8}

theorem artifactName_ne (s : Settings) (stem : String) : s.artifactName stem ≠ "" := by
  intro h
  have hlength := congrArg String.length h
  simp [Settings.artifactName] at hlength

/-- An artifact that was written can be read. The words of stages do not replace it, if it is not
called like them. -/
theorem readBytes_artifactFor {stem : String} {done : List (String × List UInt8)}
    (hstem : HasStem source stem) (ht : t'.WellFormed)
    (hchanges : t.Changes ((s.artifactFor source built, bytes) :: done) t')
    (hdone : ∀ w ∈ done, w ∈ s.dumps source built) :
    ∃ written, t'.readBytes (s.artifactFor source built) = .ok written ∧
      (¬ ".spv".toList <:+ '.' :: s.artifactExtension.toList → written = bytes) := by
  obtain ⟨X, written, hlocation, hlast, hread⟩ := hchanges.readBytes_of_mem List.mem_cons_self
  refine ⟨written, hread, fun hext => ?_⟩
  obtain ⟨hslash, Y, hfound⟩ := FileTree.readBytes_eq_ok.mp hread
  obtain rfl : Y = X := by simpa [hfound, FileTree.Place.location?] using hlocation
  have htakes : t'.Takes Y := by simp [FileTree.Takes, FileTree.lookup_of_found hfound]
  have hothers : t'.lastAt? done Y = none := by
    rw [FileTree.lastAt?_eq_none]
    intro path words hw hdump
    obtain ⟨p, _, st, _, rfl, _⟩ := mem_dumps (hdone _ hw)
    have hends := hstem.artifact_location_ends ht hext hslash hlocation htakes
    exact hstem.dump_location_ne hends hdump rfl
  rw [FileTree.lastAt?_cons, if_pos hlocation, hothers] at hlast
  exact (Option.some.inj hlast).symm

/-- Nothing can be read where an artifact would go, if its directory is not there. -/
theorem readBytes_artifactFor_of_noDirectory {stem : String} (hstem : HasStem source stem)
    (hne : s.outputFor source ≠ "") (hnone : t.isDirectory (s.outputFor source) = false)
    (e : Effect) : t.readBytes (s.artifactFor source e) ≠ .ok bytes := by
  intro hread
  obtain ⟨_, X, hfound⟩ := FileTree.readBytes_eq_ok.mp hread
  rw [hstem.artifactFor] at hfound
  have hdir := FileTree.isDirectory_of_join hne (artifactName_ne s stem)
    hstem.isAbsolute_artifactName (by rw [hfound]; rfl)
  rw [hnone] at hdir
  cases hdir

/-- No file was written, and what could be read where the artifact of a source would go is what
can be read there now. -/
structure NothingWritten (s : Settings) (source : String) (t t' : FileTree) : Prop where
  changes : t.Changes [] t'
  artifact : ∀ e, (t'.readBytes (s.artifactFor source e)).toOption =
    (t.readBytes (s.artifactFor source e)).toOption

/-- The artifact was written, and then a file with the words of a stage could not be. -/
def StoppedAtWords (compiler : Compiler (StateM FileTree)) (s : Settings) (source : String)
    (t : FileTree) (err : SourceError) (t' : FileTree) : Prop :=
  s.emitSpirv = true ∧ ∃ built bytes, prepared compiler s source t = .ok (built, bytes) ∧
    (∃ p ∈ built.passes, ∃ st ∈ p.stages, ∃ fault,
      err = .unwritable (s.dumpFor source built p st) fault) ∧
    ∃ written, t'.readBytes (s.artifactFor source built) = .ok written ∧
      (¬ ".spv".toList <:+ '.' :: s.artifactExtension.toList → written = bytes)

/-- If nothing can be read where the artifact would go, nothing could be read there before. -/
theorem nothingWritten_of_unreadable (hchanges : t.Changes [] t')
    (h : ∀ e bytes, t'.readBytes (s.artifactFor source e) ≠ .ok bytes) :
    NothingWritten s source t t' := by
  refine ⟨hchanges, fun e => ?_⟩
  cases hread : t.readBytes (s.artifactFor source e) with
  | ok old =>
    obtain ⟨X, _, hread'⟩ := hchanges.readBytes hread
    exact absurd hread' (h e _)
  | error fault =>
    cases hread' : t'.readBytes (s.artifactFor source e) with
    | ok bytes => exact absurd hread' (h e bytes)
    | error fault' => rfl

/-- A job that cannot write a file stops at the artifact, or else at the words of a stage behind
it. -/
theorem stopped_cases {done rest : List (String × List UInt8)} {path : String}
    {written : List UInt8}
    (h : s.outputs source built bytes = done ++ (path, written) :: rest) :
    done = [] ∧ path = s.artifactFor source built ∨
    s.emitSpirv = true ∧ (∃ p ∈ built.passes, ∃ st ∈ p.stages, path = s.dumpFor source built p st) ∧
      ∃ more, done = (s.artifactFor source built, bytes) :: more ∧
        ∀ w ∈ more, w ∈ s.dumps source built := by
  cases done with
  | nil =>
    obtain ⟨rfl, _⟩ := Prod.mk.inj (List.cons.inj h).1
    exact Or.inl ⟨rfl, rfl⟩
  | cons w more =>
    obtain ⟨rfl, hdumps⟩ := List.cons.inj h
    cases hemit : s.emitSpirv with
    | false => simp [hemit] at hdumps
    | true =>
      rw [hemit, if_pos rfl] at hdumps
      have hpath : (path, written) ∈ s.dumps source built := by simp [hdumps]
      obtain ⟨p, hp, st, hst, hname, _⟩ := mem_dumps hpath
      refine Or.inr ⟨rfl, ⟨p, hp, st, hst, hname⟩, more, rfl, fun w hw => ?_⟩
      simp [hdumps, hw]

/-- A job that fails has written nothing, or has stopped at the words of a stage. -/
theorem JobRuns.of_failed {ws : List (String × List UInt8)} {err : SourceError}
    (h : JobRuns compiler s source t ws (.error err) t') (ht : t.WellFormed) :
    NothingWritten s source t t' ∨ StoppedAtWords compiler s source t err t' := by
  generalize hresult : (Except.error err : Except SourceError Outcome) = result at h
  cases h with
  | checked => exact Or.inl ⟨.nil, fun _ => rfl⟩
  | unprepared => exact Or.inl ⟨.nil, fun _ => rfl⟩
  | finished => cases hresult
  | noDirectory _ hprepared hchanges hne hnone =>
    obtain ⟨text, hread⟩ := readBytes_of_prepared hprepared
    obtain ⟨stem, hstem⟩ := hasStem_of_readBytes ht hread
    refine Or.inl (nothingWritten_of_unreadable hchanges fun e bytes => ?_)
    exact readBytes_artifactFor_of_noDirectory hstem hne hnone e
  | @stopped built bytes written _ fault _ rest path _ hprepared hchanges houtputs hfault =>
    cases hresult
    obtain ⟨text, hread⟩ := readBytes_of_prepared hprepared
    obtain ⟨stem, hstem⟩ := hasStem_of_readBytes ht hread
    rcases stopped_cases houtputs with ⟨rfl, rfl⟩ | ⟨hemit, ⟨p, hp, st, hst, rfl⟩, more, rfl, hmore⟩
    · -- Where a file can be read, one can be written.
      refine Or.inl (nothingWritten_of_unreadable hchanges fun e old hread' => ?_)
      rw [hstem.artifactFor, ← hstem.artifactFor built] at hread'
      obtain ⟨t₁, hwrite⟩ := FileTree.exists_write_of_readBytes hread' written
      rw [hfault] at hwrite
      cases hwrite
    · refine Or.inr ⟨hemit, built, bytes, hprepared, ⟨p, hp, st, hst, fault, rfl⟩, ?_⟩
      exact readBytes_artifactFor hstem (hchanges.wellFormed ht) hchanges hmore

end

/-- A file that is written without being reported: the words of a stage, or the artifact of a source
that failed at such words. -/
def Unreported (s : Settings) (sources : List String) (failed : List (String × String))
    (path : String) : Prop :=
  ∃ source ∈ sources, ∃ built : Effect, ∃ p ∈ built.passes, ∃ st ∈ p.stages,
    path = s.dumpFor source built p st ∨
    path = s.artifactFor source built ∧ ∃ fault,
      (source, (SourceError.unwritable (s.dumpFor source built p st) fault).message) ∈ failed

theorem Unreported.mono {s : Settings} {sources sources' : List String}
    {failed failed' : List (String × String)} {path : String}
    (h : Unreported s sources failed path) (hsources : sources ⊆ sources')
    (hfailed : failed ⊆ failed') : Unreported s sources' failed' path := by
  obtain ⟨source, hsource, built, p, hp, st, hst, hpath⟩ := h
  refine ⟨source, hsources hsource, built, p, hp, st, hst, hpath.imp_right ?_⟩
  rintro ⟨hpath, fault, hfault⟩
  exact ⟨hpath, fault, hfailed hfault⟩

/-- The files that were written, held against what was reported as written and as failed. -/
structure Covers (s : Settings) (sources written : List String) (failed : List (String × String))
    (ws : List (String × List UInt8)) : Prop where
  all : written.Sublist (ws.map Prod.fst)
  only : s.emitSpirv = false → ws.map Prod.fst = written
  unreported : ∀ path bytes, (path, bytes) ∈ ws →
    path ∈ written ∨ s.emitSpirv = true ∧ Unreported s sources failed path

section

variable {compiler : Compiler (StateM FileTree)} {s : Settings} {t t' : FileTree}

theorem covers_nil (s : Settings) (sources : List String) (failed : List (String × String)) :
    Covers s sources [] failed [] :=
  ⟨List.Sublist.refl _, fun _ => rfl, nofun⟩

theorem Covers.append {sources sources' written written' : List String}
    {failed failed' : List (String × String)} {ws ws' : List (String × List UInt8)}
    (h : Covers s sources written failed ws) (h' : Covers s sources' written' failed' ws') :
    Covers s (sources ++ sources') (written ++ written') (failed ++ failed') (ws ++ ws') := by
  refine ⟨?_, fun hemit => ?_, fun path bytes hw => ?_⟩
  · rw [List.map_append]
    exact h.all.append h'.all
  · rw [List.map_append, h.only hemit, h'.only hemit]
  · rcases List.mem_append.mp hw with hw | hw
    · refine (h.unreported path bytes hw).imp (List.mem_append_left _) ?_
      rintro ⟨hemit, hother⟩
      exact ⟨hemit, hother.mono (List.subset_append_left _ _) (List.subset_append_left _ _)⟩
    · refine (h'.unreported path bytes hw).imp (List.mem_append_right _) ?_
      rintro ⟨hemit, hother⟩
      exact ⟨hemit, hother.mono (List.subset_append_right _ _) (List.subset_append_right _ _)⟩

/-- One job. -/
theorem JobRuns.covers {source : String} {ws : List (String × List UInt8)}
    {result : Except SourceError Outcome} (h : JobRuns compiler s source t ws result t')
    (index : Nat) : Covers s [source] (Delivery.artifact? ⟨index, source, result⟩).toList
      (Delivery.failure? ⟨index, source, result⟩).toList ws := by
  cases h with
  | checked =>
    cases t.loaded source with
    | error err => exact covers_nil s _ _
    | ok e => exact covers_nil s _ _
  | unprepared => exact covers_nil s _ _
  | noDirectory => exact covers_nil s _ _
  | @stopped built bytes _ _ fault _ _ _ _ _ _ houtputs _ =>
    rcases stopped_cases houtputs with ⟨rfl, rfl⟩ | ⟨hemit, ⟨p, hp, st, hst, rfl⟩, more, rfl, hmore⟩
    · exact covers_nil s _ _
    · refine ⟨List.nil_sublist _, fun hoff => ?_, fun path written hw => ?_⟩
      · rw [hemit] at hoff
        cases hoff
      · refine Or.inr ⟨hemit, source, by simp, built, ?_⟩
        rcases List.mem_cons.mp hw with heq | hw
        · refine ⟨p, hp, st, hst, Or.inr ⟨(Prod.mk.inj heq).1, fault, ?_⟩⟩
          simp [Delivery.failure?]
        · obtain ⟨p', hp', st', hst', hpath, _⟩ := mem_dumps (hmore _ hw)
          exact ⟨p', hp', st', hst', Or.inl hpath⟩
  | @finished built bytes =>
    have hfirst : (s.outputs source built bytes).map Prod.fst = s.artifactFor source built ::
        (if s.emitSpirv then s.dumps source built else []).map Prod.fst := rfl
    refine ⟨?_, fun hoff => ?_, fun path written hw => ?_⟩
    · rw [hfirst]
      exact (List.nil_sublist _).cons_cons _
    · rw [hfirst, hoff]
      rfl
    · rcases List.mem_cons.mp hw with heq | hw
      · rw [(Prod.mk.inj heq).1]
        exact Or.inl (by simp [Delivery.artifact?])
      · obtain ⟨hemit, hdump⟩ : s.emitSpirv = true ∧ (path, written) ∈ s.dumps source built := by
          simpa using hw
        obtain ⟨p, hp, st, hst, hpath, _⟩ := mem_dumps hdump
        exact Or.inr ⟨hemit, source, by simp, built, p, hp, st, hst, Or.inl hpath⟩

/-- Jobs in turn. -/
theorem TakenInTurn.covers {outcome : Nat → Except SourceError Outcome} {jobs : List (String × Nat)}
    (hcompiler : KeepsFiles compiler) (h : TakenInTurn compiler s outcome t jobs t') :
    ∃ ws, t.Changes ws t' ∧
      Covers s (jobs.map Prod.fst) ((jobs.map (deliver outcome)).filterMap Delivery.artifact?)
        ((jobs.map (deliver outcome)).filterMap Delivery.failure?) ws := by
  simp only [List.filterMap_eq_flatMap_toList]
  induction h with
  | nil => exact ⟨[], .nil, covers_nil s _ _⟩
  | @cons t t₁ t₂ source index jobs answer hjob hanswer _ ih =>
    obtain ⟨ws', hchanges', hcovers'⟩ := ih
    obtain ⟨ws, hruns⟩ := jobRuns_of_runJob hcompiler hjob
    rw [hanswer] at hruns
    exact ⟨ws ++ ws', hruns.changes.trans hchanges', (hruns.covers index).append hcovers'⟩

/-- A job that fails has written no file and its artifact is as it was, unless it failed at the
words of a stage, when the artifact had been written. What a batch writes are the artifacts in its
report, and files with the words of stages if they are wanted, and then also the artifacts of
sources that failed at such a file. -/
theorem artifacts_of_failed_sources (hcompiler : KeepsFiles compiler) (ht : t.WellFormed)
    (s : Settings) :
    (∀ source err t', (compileOne FileTree.files compiler s source).runFrom t = (.error err, t') →
      NothingWritten s source t t' ∨ StoppedAtWords compiler s source t err t') ∧
    ∀ parallelism path answer t',
      (runBatch FileTree.files compiler s parallelism path).run t = (answer, t') →
      (∀ err, answer.result = .error err → t' = t) ∧
      ∀ r, answer.result = .ok r → ∃ sources ws,
        (collectSources FileTree.files path s.sourceExtension).run t = (.ok sources, t) ∧
        t.Changes ws t' ∧ Covers s sources r.written r.failed ws ∧
        (∀ artifact ∈ r.written, ∃ bytes, t'.readBytes artifact = .ok bytes) ∧
        ∀ X bytes, t'.lookup X = some (.file bytes) → t.lookup X = some (.file bytes) ∨
          ∃ file, (file, bytes) ∈ ws ∧ (t'.locate file).location? = some X := by
  constructor
  · intro source err t' hrun
    obtain ⟨ws, hruns⟩ := jobRuns_of_runFrom hcompiler hrun
    exact hruns.of_failed ht
  · intro parallelism path answer t' hrun
    have hcases := runBatch_cases compiler s parallelism path t
    rw [hrun] at hcases
    rcases hcases with ⟨err, herr, rfl⟩ | ⟨sources, outcome, _, hsources, hresult, htaken⟩
    · refine ⟨fun _ _ => rfl, fun r hr => ?_⟩
      rw [herr] at hr
      cases hr
    · refine ⟨fun err herr => ?_, fun r hr => ?_⟩
      · rw [hresult] at herr
        cases herr
      · rw [hresult] at hr
        cases hr
        obtain ⟨ws, hchanges, hcovers⟩ := htaken.covers hcompiler
        have haccounts := Report.accounts_inTurn outcome sources
        rw [List.zipIdx_map_fst, ← haccounts.written, ← haccounts.failed] at hcovers
        refine ⟨sources, ws, hsources, hchanges, hcovers, fun artifact hartifact => ?_,
          fun X bytes => hchanges.lookup_file_cases⟩
        obtain ⟨⟨_, written⟩, hw, rfl⟩ := List.mem_map.mp (hcovers.all.subset hartifact)
        obtain ⟨_, bytes, _, _, hread⟩ := hchanges.readBytes_of_mem hw
        exact ⟨bytes, hread⟩

end

/-- The name of the pass makes the words of its stage go to a directory that is not there. -/
def slashedPass : FileTree :=
  oneSource "a.kfx" "Pass \"x/y\" \x7b FragmentShader F \x7d GLSL F \x7b\x7d"

theorem runJob_slashedPass :
    (runJob constantCompiler wordsWanted "in/a.kfx" slashedPass).1.result =
      .error (.unwritable "out/a.x/y.frag.spv" .missing) := by
  decide +kernel

theorem slashedPass_artifact :
    (slashedPass.readBytes "out/a.kfxb").toOption = none ∧
    ((runJob constantCompiler wordsWanted "in/a.kfx" slashedPass).2.readBytes
      "out/a.kfxb").toOption.isSome = true := by
  decide +kernel

theorem slashedPass_stoppedAtWords :
    KeepsFiles constantCompiler ∧ slashedPass.WellFormed ∧
    StoppedAtWords constantCompiler wordsWanted "in/a.kfx" slashedPass
      (.unwritable "out/a.x/y.frag.spv" .missing)
      (runJob constantCompiler wordsWanted "in/a.kfx" slashedPass).2 := by
  have ht : slashedPass.WellFormed := oneSource_wellFormed (by simp [IsName]) _
  obtain ⟨hjobs, _⟩ := artifacts_of_failed_sources keepsFiles_constantCompiler ht wordsWanted
  have hrun := runFrom_eq_runJob constantCompiler wordsWanted "in/a.kfx" slashedPass
  rw [runJob_slashedPass] at hrun
  refine ⟨keepsFiles_constantCompiler, ht, (hjobs _ _ _ hrun).resolve_left fun hnothing => ?_⟩
  obtain ⟨hbefore, hafter⟩ := slashedPass_artifact
  have hartifact : wordsWanted.artifactFor "in/a.kfx" {} = "out/a.kfxb" := by decide +kernel
  have hsame := hnothing.artifact {}
  rw [hartifact, hbefore] at hsame
  rw [hsame] at hafter
  cases hafter

/-- A source is reported as failed and not as written, and yet its artifact is there. -/
theorem failed_source_leaves_artifact :
    let run := (runBatch FileTree.files constantCompiler wordsWanted 1 "in/a.kfx").run slashedPass
    run.1.result = .ok { failed := [("in/a.kfx",
      "failed to write out/a.x/y.frag.spv: No such file or directory (os error 2)")] } ∧
    (slashedPass.readBytes "out/a.kfxb").toOption = none ∧
    (run.2.readBytes "out/a.kfxb").toOption.isSome = true := by
  intro run
  have hfile : slashedPass.isFile "in/a.kfx" = true := by decide +kernel
  obtain ⟨hreport, htree⟩ := runBatch_of_isFile constantCompiler wordsWanted 1 hfile
  dsimp only [run]
  rw [hreport, htree, runJob_slashedPass]
  exact ⟨rfl, slashedPass_artifact⟩

end Kfx
