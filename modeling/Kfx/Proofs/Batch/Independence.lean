import Kfx.Proofs.Batch.Artifacts
import Kfx.Proofs.Batch.Calls
import Kfx.Proofs.Batch.Schedule
import Kfx.Proofs.Log

/-!
# Independence of schedules

What a batch reports does not depend on how its jobs were scheduled, and an artifact stays as its
job wrote it. For the report the jobs may be handed back in any order; for the files the calls of
all jobs may be interleaved.
-/
namespace Kfx

open Kfx.Path Script

section

variable {t : FileTree} {s : Settings} {path name stem : String} {e : Effect} {L : Location}
  {bytes : List UInt8}

/-- What may follow after the job of `x` has written its artifact: calls of the jobs of other
sources, and of its own the words of its stages. -/
def MayFollow (s : Settings) (scripted : Compiler Script) (sources : List String) (x : String)
    (e : Effect) (c : FileCall) : Prop :=
  (∃ y ∈ sources, y ≠ x ∧
    MayCall (compileOne Script.files scripted s y : Script (Logged SourceError Outcome)) c) ∨
  s.emitSpirv = true ∧
    MayCall (writeAll Script.files (s.dumps x e) : Script (Logged SourceError Unit)) c

/-- An artifact can be read as it was written, whatever the calls before and after it. -/
def ArtifactsKept (s : Settings) (scripted : Compiler Script) (sources : List String)
    (t : FileTree) : Prop :=
  ∀ x ∈ sources, ∀ e bytes before after t₁,
    (FileCall.performAll t before).write (s.artifactFor x e) bytes = .ok t₁ →
    (∀ c ∈ after, MayFollow s scripted sources x e c) →
    (FileCall.performAll t₁ after).readBytes (s.artifactFor x e) = .ok bytes

section

variable {scripted : Compiler Script} {compiler : Compiler (StateM FileTree)}
  {sources names : List String}

/-- A call that may follow leaves the artifact where it is. -/
theorem MayFollow.locate_perform {c : FileCall}
    (hc : MayFollow s scripted sources (join path name) e c)
    (hcompiler : ReadsOnly scripted compiler) (hs : s.KeepsApart)
    (hsources : sources = names.map (join path)) (hnames : ∀ n ∈ names, ∃ stem, IsSource s n stem)
    (h : IsSource s name stem)
    (hplace : t.locate (s.artifactFor (join path name) e) = .found L (.file bytes))
    (hends : s.emitSpirv = true → ∃ D last, L = D ++ [last] ∧ ¬ ".spv".toList <:+ last.toList) :
    (FileCall.perform t c).locate (s.artifactFor (join path name) e) = .found L (.file bytes) := by
  have hlocation : (t.locate (s.artifactFor (join path name) e)).location? = some L := by
    rw [hplace]
    rfl
  refine FileCall.locate_perform hplace ?_
  intro other bs hwrite hother
  rcases hc with ⟨y, hy, hne, hmay⟩ | ⟨hemit, hmay⟩
  · rw [hsources] at hy
    obtain ⟨name', hname', rfl⟩ := List.mem_map.mp hy
    obtain ⟨stem', h'⟩ := hnames name' hname'
    have hnames_ne : name' ≠ name := fun heq => hne (by rw [heq])
    have hjob := (scriptOf_compileOne hcompiler).uses c hmay
    rw [hwrite] at hjob
    rcases hjob with ⟨e', heq⟩ | ⟨hemit, e', p, st, heq⟩
    · rw [heq] at hother
      exact h'.artifact_location_ne h hnames_ne hs hother hlocation rfl
    · rw [heq] at hother
      exact h'.hasStem.dump_location_ne (hends hemit) hother rfl
  · have hdump := (scriptOf_writeAll fun _ => dumpCall_of_mem).uses c hmay
    rw [hwrite] at hdump
    obtain ⟨p, st, heq⟩ := hdump
    rw [heq] at hother
    exact h.hasStem.dump_location_ne (hends hemit) hother rfl

/-- Where settings keep files apart, no job touches the artifact of another. -/
theorem artifactsKept (ht : t.WellFormed) (hs : s.KeepsApart)
    (hcompiler : ReadsOnly scripted compiler) (hsources : sources = names.map (join path))
    (hnames : ∀ n ∈ names, ∃ stem, IsSource s n stem) : ArtifactsKept s scripted sources t := by
  intro x hx e bytes before after t₁ hwrite hafter
  rw [hsources] at hx
  obtain ⟨name, hname, rfl⟩ := List.mem_map.mp hx
  obtain ⟨stem, h⟩ := hnames name hname
  obtain ⟨hslash, L, hlocation, htakes, rfl⟩ := FileTree.write_eq_ok hwrite
  have hends : s.emitSpirv = true →
      ∃ D last, L = D ++ [last] ∧ ¬ ".spv".toList <:+ last.toList := fun hemit =>
    h.hasStem.artifact_location_ends (FileCall.wellFormed_performAll ht before) (hs.noDump hemit)
      hslash hlocation htakes
  have hplace : ((FileCall.performAll t before).put L (.file bytes)).locate
      (s.artifactFor (join path name) e) = .found L (.file bytes) :=
    FileTree.locate_put hlocation htakes
  have hkept : ∀ calls t₂, (∀ c ∈ calls, MayFollow s scripted sources (join path name) e c) →
      t₂.locate (s.artifactFor (join path name) e) = .found L (.file bytes) →
      (FileCall.performAll t₂ calls).locate (s.artifactFor (join path name) e) =
        .found L (.file bytes) := by
    intro calls
    induction calls with
    | nil => exact fun _ _ h => h
    | cons c calls ih =>
      intro t₂ hcalls hfound
      obtain ⟨hc, hothers⟩ := List.forall_mem_cons.mp hcalls
      exact ih _ hothers (hc.locate_perform hcompiler hs hsources hnames h hfound hends)
  exact FileTree.readBytes_eq_ok.mpr ⟨hslash, L, hkept after _ hafter hplace⟩

end

end

section

variable {σ ε α β : Type} {post : β → Prop}

/-- From whatever state, what a successful computation comes to is as stated. -/
def ComesTo (post : β → Prop) (x : LoggedT ε (StateM σ) β) : Prop :=
  ∀ st b, Logged.result (StateT.run (m := Id) x st).1 = .ok b → post b

theorem comesTo_pure {b : β} (h : post b) :
    ComesTo post (Pure.pure b : LoggedT ε (StateM σ) β) := by
  intro st b' hb
  cases hb
  exact h

theorem ComesTo.bind {x : LoggedT ε (StateM σ) α} {f : α → LoggedT ε (StateM σ) β}
    (h : ∀ a, ComesTo post (f a)) : ComesTo post (x >>= f) := by
  intro st b hb
  obtain ⟨⟨y, st'⟩, hx⟩ : ∃ answer, StateT.run (x : StateM σ (Logged ε α)) st = answer := ⟨_, rfl⟩
  change (StateT.run (LoggedT.andThen x f) st).1.result = .ok b at hb
  rw [LoggedT.andThen, run_bind_of_run hx] at hb
  split at hb
  · cases hb
  · next a _ => exact h a st' b hb

end

/-- What a job says it has written is the artifact of its source. -/
theorem comesTo_compileOne (compiler : Compiler (StateM FileTree)) (s : Settings)
    (source : String) :
    ComesTo (fun made => ∀ artifact, made = .written artifact →
      ∃ e, artifact = s.artifactFor source e) (compileOne FileTree.files compiler s source) := by
  have hchecked : ∀ artifact, Outcome.checked = .written artifact →
      ∃ e, artifact = s.artifactFor source e := nofun
  refine ComesTo.bind fun e => ?_
  split
  · exact ComesTo.bind fun _ => comesTo_pure hchecked
  · refine ComesTo.bind fun built => ?_
    have hwritten : ∀ artifact, Outcome.written (s.artifactFor source built) = .written artifact →
        ∃ e, artifact = s.artifactFor source e := by
      intro artifact heq
      exact ⟨built, (Outcome.written.inj heq).symm⟩
    refine ComesTo.bind fun bytes => ComesTo.bind fun _ => ComesTo.bind fun _ => ?_
    split
    · exact ComesTo.bind fun _ => ComesTo.bind fun _ => comesTo_pure hwritten
    · exact ComesTo.bind fun _ => comesTo_pure hwritten

/-- A job with the files to itself. -/
def runJob (compiler : Compiler (StateM FileTree)) (s : Settings) (source : String)
    (t : FileTree) : Logged SourceError Outcome × FileTree :=
  StateT.run (compileOne FileTree.files compiler s source :
    StateM FileTree (Logged SourceError Outcome)) t

/-- One worker takes the jobs in turn, each on the tree that the job before it left. -/
inductive TakenInTurn (compiler : Compiler (StateM FileTree)) (s : Settings)
    (outcome : Nat → Except SourceError Outcome) :
    FileTree → List (String × Nat) → FileTree → Prop
  | nil {t} : TakenInTurn compiler s outcome t [] t
  | cons {t t₁ t₂ source index jobs answer}
      (hjob : runJob compiler s source t = (answer, t₁))
      (hanswer : answer.result = outcome index)
      (hrest : TakenInTurn compiler s outcome t₁ jobs t₂) :
    TakenInTurn compiler s outcome t ((source, index) :: jobs) t₂

namespace TakenInTurn

variable {compiler : Compiler (StateM FileTree)} {s : Settings} {t t' : FileTree}
  {outcome outcome' : Nat → Except SourceError Outcome} {jobs : List (String × Nat)}

theorem congr (h : TakenInTurn compiler s outcome t jobs t')
    (hsame : ∀ job ∈ jobs, outcome' job.2 = outcome job.2) :
    TakenInTurn compiler s outcome' t jobs t' := by
  induction h with
  | nil => exact .nil
  | cons hjob hanswer _ ih =>
    obtain ⟨hfirst, hothers⟩ := List.forall_mem_cons.mp hsame
    exact .cons hjob (hanswer.trans hfirst.symm) (ih hothers)

theorem written (h : TakenInTurn compiler s outcome t jobs t') :
    ∀ job ∈ jobs, ∀ artifact, outcome job.2 = .ok (.written artifact) →
      ∃ e, artifact = s.artifactFor job.1 e := by
  induction h with
  | nil => nofun
  | @cons t _ _ source _ _ _ hjob hanswer _ ih =>
    refine List.forall_mem_cons.mpr ⟨?_, ih⟩
    intro artifact houtcome
    have hwritten : (runJob compiler s source t).1.result = .ok (.written artifact) := by
      rw [hjob]
      exact hanswer.trans houtcome
    exact comesTo_compileOne compiler s source t _ hwritten artifact rfl

/-- If no two sources share the path of an artifact, no two artifacts in the report do. -/
theorem pairwise_written {sources : List String}
    (h : TakenInTurn compiler s outcome t sources.zipIdx t')
    (hsources : sources.Pairwise fun x y => ∀ e e',
      components (s.artifactFor x e) ≠ components (s.artifactFor y e')) :
    (Report.inTurn outcome sources).written.Pairwise fun a b => components a ≠ components b := by
  rw [(Report.accounts_inTurn outcome sources).written, List.pairwise_filterMap,
    List.pairwise_map]
  have hartifact : ∀ job artifact, (deliver outcome job).artifact? = some artifact →
      outcome job.2 = .ok (.written artifact) := by
    intro job artifact hsome
    unfold Delivery.artifact? deliver at hsome
    split at hsome
    · next houtcome =>
      cases hsome
      exact houtcome
    · cases hsome
  have hjobs : sources.zipIdx.Pairwise fun j k => ∀ e e',
      components (s.artifactFor j.1 e) ≠ components (s.artifactFor k.1 e') := by
    rw [← List.zipIdx_map_fst 0 sources] at hsources
    exact List.pairwise_map.mp hsources
  refine hjobs.imp_of_mem ?_
  intro j k hj hk hne a ha b hb
  obtain ⟨e, rfl⟩ := h.written j hj a (hartifact j a ha)
  obtain ⟨e', rfl⟩ := h.written k hk b (hartifact k b hb)
  exact hne e e'

end TakenInTurn

section

variable (compiler : Compiler (StateM FileTree)) (s : Settings)

/-- A worker on its own hands back one delivery for each job, in order. -/
theorem deliverAll_run (sources : List String) (k : Nat) (t : FileTree) :
    ∃ outcome log t', TakenInTurn compiler s outcome t (sources.zipIdx k) t' ∧
      (deliverAll FileTree.files compiler s (sources.zipIdx k)).run t =
        ((log, (sources.zipIdx k).map (deliver outcome)), t') := by
  induction sources generalizing k t with
  | nil => exact ⟨fun _ => .ok .checked, [], t, .nil, rfl⟩
  | cons source sources ih =>
    obtain ⟨⟨x, t₁⟩, hjob⟩ : ∃ answer, runJob compiler s source t = answer := ⟨_, rfl⟩
    obtain ⟨outcome, log, t', htaken, hrest⟩ := ih (k + 1) t₁
    -- The job has a number that none of the others has.
    let outcome' := fun n => if n = k then x.result else outcome n
    have hsame : ∀ job ∈ sources.zipIdx (k + 1), outcome' job.2 = outcome job.2 := by
      intro job hmem
      have hle := List.le_snd_of_mem_zipIdx hmem
      exact if_neg (by omega)
    have hfirst : outcome' k = x.result := if_pos rfl
    have hothers : (sources.zipIdx (k + 1)).map (deliver outcome) =
        (sources.zipIdx (k + 1)).map (deliver outcome') := by
      refine List.map_congr_left fun job hmem => ?_
      rw [deliver, deliver, hsame job hmem]
    refine ⟨outcome', x.log ++ log, t', ?_, ?_⟩
    · exact .cons hjob hfirst.symm (htaken.congr hsame)
    · rw [List.zipIdx_cons, deliverAll, run_bind_of_run hjob, run_bind_of_run hrest, hothers,
        List.map_cons, deliver, hfirst]
      rfl

/-- What a batch comes to: the report of its sources taken in turn. -/
theorem runBatch_run {path : String} {t : FileTree} {sources : List String} (parallelism : Nat)
    (hsources : (collectSources FileTree.files path s.sourceExtension).run t = (.ok sources, t))
    (hne : sources ≠ []) :
    ∃ outcome, TakenInTurn compiler s outcome t sources.zipIdx
        ((runBatch FileTree.files compiler s parallelism path).run t).2 ∧
      ((runBatch FileTree.files compiler s parallelism path).run t).1.result =
        .ok (Report.inTurn outcome sources) := by
  obtain ⟨outcome, log, t', htaken, hdeliver⟩ := deliverAll_run compiler s sources 0 t
  have hreport : Report.ofDeliveries (sources.zipIdx.map (deliver outcome)) =
      Report.inTurn outcome sources := by
    unfold Report.ofDeliveries Report.inTurn
    rw [inOrder_eq_of_perm (List.Perm.refl _) (pairwise_deliver outcome sources 0)]
  cases sources with
  | nil => exact absurd rfl hne
  | cons source sources =>
    refine ⟨outcome, ?_⟩
    rw [runBatch, run_bind_of_run hsources]
    dsimp only
    rw [run_bind_of_run hdeliver, ← hreport]
    exact ⟨htaken, rfl⟩

/-- However many workers there are and however their steps are interleaved, a batch ends after a
bounded number of steps with the report of one worker, which accounts for every source once and in
order. The sources of a directory are taken in the order of their names, no two artifacts have the
same path, and under settings that keep files apart an artifact stays as its job wrote it. -/
theorem batch_independent_of_schedule (parallelism : Nat) {path : String} {t : FileTree}
    {sources : List String}
    (hsources : (collectSources FileTree.files path s.sourceExtension).run t = (.ok sources, t))
    (hne : sources ≠ []) :
    (∃ outcome, TakenInTurn compiler s outcome t sources.zipIdx
        ((runBatch FileTree.files compiler s parallelism path).run t).2 ∧
      ((runBatch FileTree.files compiler s parallelism path).run t).1.result =
        .ok (Report.inTurn outcome sources)) ∧
    (∀ outcome workers steps p, 0 < workers →
      Pool.Run outcome steps (.start sources workers) p →
        steps ≤ 2 * sources.length + workers ∧
        (¬ p.Finished → ∃ q, Pool.Step outcome p q) ∧
        (p.Finished → Report.ofDeliveries p.sent = Report.inTurn outcome sources)) ∧
    (∀ outcome, (Report.inTurn outcome sources).Accounts (sources.zipIdx.map (deliver outcome))) ∧
    (t.WellFormed → t.isDirectory path = true →
      (∃ names : List String, sources = names.map (join path) ∧ names.Pairwise (· < ·)) ∧
      (sources.Pairwise fun x y => ∀ e e',
        components (s.artifactFor x e) ≠ components (s.artifactFor y e')) ∧
      (∀ r, ((runBatch FileTree.files compiler s parallelism path).run t).1.result = .ok r →
        r.written.Pairwise fun a b => components a ≠ components b) ∧
      (s.KeepsApart → ∀ scripted, ReadsOnly scripted compiler →
        (∀ x ∈ sources, LoggedScriptOf (JobCall s x) (compileOne Script.files scripted s x)
          (compileOne FileTree.files compiler s x)) ∧
        ArtifactsKept s scripted sources t)) := by
  obtain ⟨outcome, htaken, hresult⟩ := runBatch_run compiler s parallelism hsources hne
  refine ⟨⟨outcome, htaken, hresult⟩, ?_, ?_, ?_⟩
  · intro outcome workers steps p hworkers hrun
    have heffort := hrun.effort
    rw [Pool.effort_start] at heffort
    exact ⟨by omega, Pool.exists_step, hrun.fromStart.report hworkers⟩
  · exact fun outcome => Report.accounts_inTurn outcome sources
  · intro ht hdir
    obtain ⟨names, hmap, hsorted, hnames⟩ := collected_sources ht hdir hsources
    have hpaths : sources.Pairwise fun x y => ∀ e e',
        components (s.artifactFor x e) ≠ components (s.artifactFor y e') := by
      rw [hmap, List.pairwise_map]
      refine hsorted.imp_of_mem ?_
      intro n n' hn hn' hlt
      obtain ⟨stem, h⟩ := hnames n hn
      obtain ⟨stem', h'⟩ := hnames n' hn'
      exact h.components_artifactFor_ne h' (String.ne_of_lt hlt)
    refine ⟨⟨names, hmap, hsorted⟩, hpaths, ?_, ?_⟩
    · intro r hr
      cases hresult.symm.trans hr
      exact htaken.pairwise_written hpaths
    · intro hs scripted hscripted
      exact ⟨fun _ _ => scriptOf_compileOne hscripted,
        artifactsKept ht hs hscripted hmap hnames⟩

end

/-- Two sources in one directory, and some directories for artifacts. -/
def twoSources (a textA b textB : String) (output : List Location) : FileTree where
  entries := (["in"], .directory) :: (["in", a], .file textA.toByteArray.data.toList) ::
    (["in", b], .file textB.toByteArray.data.toList) :: output.map (·, .directory)
  here := []

def constantCompiler {m : Type → Type} [Monad m] : Compiler m := fun _ _ => return .words [7]

/-- The sources of such a directory, if they stand in it in the order of their names. -/
theorem collectSources_twoSources (t : FileTree) (a b extension : String)
    (hdir : t.isDirectory "in" = true) (hlist : t.list "in" = .ok [a, b])
    (hwanted : wanted t extension "in" [a, b] = [a, b]) (hle : a ≤ b) :
    (collectSources FileTree.files "in" extension).run t =
      (.ok [join "in" a, join "in" b], t) := by
  have hsorted : [a, b].Pairwise fun a b => decide (a ≤ b) = true := by simpa using hle
  rw [collectSources_run extension hdir hlist, hwanted, List.mergeSort_of_pairwise hsorted]
  rfl

def twoShaders : FileTree :=
  twoSources "a.kfx" "Shader A \x7b\x7d" "b.kfx" "Shader B \x7b\x7d" []

def twoJobs : Settings := { jobs := 2, outputDir := some "out" }

theorem twoShaders_sources : (collectSources FileTree.files "in" "kfx").run twoShaders =
    (.ok ["in/a.kfx", "in/b.kfx"], twoShaders) :=
  collectSources_twoSources twoShaders "a.kfx" "b.kfx" "kfx" (by decide +kernel) (by decide +kernel)
    (by decide +kernel) (by decide)

theorem twoShaders_wellFormed : twoShaders.WellFormed where
  names := by simp [twoShaders, twoSources, IsName]
  here := by simp [twoShaders, twoSources]
  distinct := by decide
  inDirectory := by
    intro e he
    simp only [twoShaders, twoSources, List.map_nil, List.mem_cons, List.not_mem_nil,
      or_false] at he
    rcases he with rfl | rfl | rfl <;> rfl

theorem twoJobs_keepsApart : twoJobs.KeepsApart := by
  constructor
  · decide
  · decide

/-- The first source passes its check, the second becomes an artifact. -/
def checkedThenWritten (n : Nat) : Except SourceError Outcome :=
  if n = 0 then .ok .checked else .ok (.written "out/b.kfxb")

/-- Both workers have left, and the second source was done first. -/
def secondFirst : Pool :=
  ⟨[], [.gone, .gone],
    [deliver checkedThenWritten ("in/b.kfx", 1), deliver checkedThenWritten ("in/a.kfx", 0)]⟩

theorem run_secondFirst :
    Pool.Run checkedThenWritten 6 (.start ["in/a.kfx", "in/b.kfx"] 2) secondFirst := by
  have taken := (Pool.Run.refl (.start ["in/a.kfx", "in/b.kfx"] 2)).snoc
    (@Pool.Step.take checkedThenWritten "in/a.kfx" 0 [("in/b.kfx", 1)] [] [.waiting] [])
  have bothTaken := taken.snoc (@Pool.Step.take _ "in/b.kfx" 1 [] [.busy "in/a.kfx" 0] [] [])
  have secondSent := bothTaken.snoc (@Pool.Step.send _ "in/b.kfx" 1 [] [.busy "in/a.kfx" 0] [] [])
  have bothSent := secondSent.snoc (@Pool.Step.send _ "in/a.kfx" 0 [] [] [.waiting] _)
  have oneLeft := bothSent.snoc (@Pool.Step.leave _ [] [.waiting] _)
  exact oneLeft.snoc (@Pool.Step.leave _ [.gone] [] _)

theorem twoShaders_independent :
    Pool.Run checkedThenWritten 6 (.start ["in/a.kfx", "in/b.kfx"] 2) secondFirst ∧
    Report.ofDeliveries secondFirst.sent =
      { written := ["out/b.kfxb"], checked := ["in/a.kfx"] } ∧
    twoShaders.WellFormed ∧ twoShaders.isDirectory "in" = true ∧ twoJobs.KeepsApart ∧
    ReadsOnly constantCompiler constantCompiler ∧
    ArtifactsKept twoJobs constantCompiler ["in/a.kfx", "in/b.kfx"] twoShaders := by
  obtain ⟨_, hruns, _, hfiles⟩ :=
    batch_independent_of_schedule constantCompiler twoJobs 2 twoShaders_sources (by decide)
  have hdir : twoShaders.isDirectory "in" = true := by decide +kernel
  obtain ⟨_, _, hreport⟩ := hruns _ 2 6 secondFirst (by decide) run_secondFirst
  obtain ⟨_, _, _, hkept⟩ := hfiles twoShaders_wellFormed hdir
  have hreads : ReadsOnly constantCompiler constantCompiler := fun _ _ _ _ => ScriptOf.done _
  have hfinished : secondFirst.Finished := by simp [Pool.Finished, secondFirst]
  exact ⟨run_secondFirst, (hreport hfinished).trans rfl, twoShaders_wellFormed, hdir,
    twoJobs_keepsApart, hreads, (hkept twoJobs_keepsApart constantCompiler hreads).2⟩

/-- A batch reports an artifact that in the end is not what its job wrote. -/
structure LosesArtifact (compiler : Compiler (StateM FileTree)) (s : Settings) (path : String)
    (t : FileTree) (source artifact : String) : Prop where
  written : (runJob compiler s source t).1.result = .ok (.written artifact)
  reported : ∃ r, ((runBatch FileTree.files compiler s 1 path).run t).1.result = .ok r ∧
    artifact ∈ r.written
  replaced : ((runBatch FileTree.files compiler s 1 path).run t).2.readBytes artifact ≠
    (runJob compiler s source t).2.readBytes artifact

theorem losesArtifact_of_pair {compiler : Compiler (StateM FileTree)} {s : Settings}
    {path x y artifact : String} {t : FileTree}
    (hsources : (collectSources FileTree.files path s.sourceExtension).run t = (.ok [x, y], t))
    (hwritten : (runJob compiler s x t).1.result = .ok (.written artifact))
    (hreplaced : ((runJob compiler s y (runJob compiler s x t).2).2.readBytes artifact).toOption ≠
      ((runJob compiler s x t).2.readBytes artifact).toOption) :
    LosesArtifact compiler s path t x artifact := by
  obtain ⟨outcome, htaken, hresult⟩ := runBatch_run compiler s 1 hsources (by simp)
  generalize htree : ((runBatch FileTree.files compiler s 1 path).run t).2 = t' at htaken
  cases htaken with
  | cons hjob hanswer hrest =>
    cases hrest with
    | cons hjob' _ hdone =>
      cases hdone
      rw [hjob] at hwritten hreplaced
      rw [hjob'] at hreplaced
      have hfirst : outcome 0 = .ok (.written artifact) := hanswer.symm.trans hwritten
      refine ⟨by rw [hjob]; exact hwritten, ⟨_, hresult, ?_⟩, ?_⟩
      · rw [(Report.accounts_inTurn outcome [x, y]).written]
        simp [deliver, Delivery.artifact?, hfirst]
      · rw [htree, hjob]
        exact fun heq => hreplaced (congrArg Except.toOption heq)

/-- The words of the pass `P` of one source have the name of the artifact of the other. -/
def sharedName : FileTree :=
  twoSources "a.P.frag.kfx" "Shader Q \x7b\x7d" "a.kfx"
    "Pass P \x7b FragmentShader F \x7d GLSL F \x7b\x7d" []

/-- Artifacts that climb out of these directories meet. -/
def sharedParent : FileTree :=
  twoSources "a.kfx" "Shader A \x7b\x7d" "b.kfx" "Shader B \x7b\x7d"
    [["out"], ["out", "a."], ["out", "b."]]

/-- Without settings that keep files apart, a job can replace the artifact of another: with the
words of a stage, or with its own artifact on another path to the same file. -/
theorem artifacts_replaced :
    LosesArtifact constantCompiler
      { outputDir := some "out", artifactExtension := "spv", emitSpirv := true } "in" sharedName
      "in/a.P.frag.kfx" "out/a.P.frag.spv" ∧
    LosesArtifact constantCompiler { outputDir := some "out", artifactExtension := "/../x" } "in"
      sharedParent "in/a.kfx" "out/a./../x" := by
  have hnames := collectSources_twoSources sharedName "a.P.frag.kfx" "a.kfx" "kfx"
    (by decide +kernel) (by decide +kernel) (by decide +kernel) (by decide)
  have hparent := collectSources_twoSources sharedParent "a.kfx" "b.kfx" "kfx" (by decide +kernel)
    (by decide +kernel) (by decide +kernel) (by decide)
  constructor
  · exact losesArtifact_of_pair hnames (by decide +kernel) (by decide +kernel)
  · exact losesArtifact_of_pair hparent (by decide +kernel) (by decide +kernel)

end Kfx
