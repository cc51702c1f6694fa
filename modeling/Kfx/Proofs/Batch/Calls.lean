import Kfx.Batch.Basic
import Kfx.Proofs.Files.Script

/-!
# What a job does to files

Its script follows the program from reading the source to writing the artifact; of files it writes
its artifact and the words of its stages, and nothing else.
-/
namespace Kfx

open Kfx.Path

def FileCall.Reads : FileCall → Prop
  | .makeDirectory _ => False
  | .write _ _ => False
  | _ => True

/-- The script of a compiler that changes no file: with include files that are only read, it only
reads. -/
def ReadsOnly (scripted : Compiler Script) (compiler : Compiler (StateM FileTree)) : Prop :=
  ∀ request includes includes',
    (∀ name, ScriptOf FileCall.Reads (includes name) (includes' name)) →
    ScriptOf FileCall.Reads (scripted request includes) (compiler request includes')

def DumpCall (s : Settings) (source : String) (e : Effect) : FileCall → Prop
  | .write path _ => ∃ p st, path = s.dumpFor source e p st
  | _ => True

/-- The calls of a job: of files, it writes its artifact and, if wanted, the words of stages. -/
def JobCall (s : Settings) (source : String) : FileCall → Prop
  | .write path _ => (∃ e, path = s.artifactFor source e) ∨
      s.emitSpirv = true ∧ ∃ e p st, path = s.dumpFor source e p st
  | _ => True

section

variable {s : Settings} {source : String} {allowed : FileCall → Prop} {scripted : Compiler Script}
  {compiler : Compiler (StateM FileTree)}

theorem jobCall_of_reads {c : FileCall} (h : c.Reads) : JobCall s source c := by
  cases c with
  | write path bytes => exact h.elim
  | _ => trivial

theorem scriptOf_readText (path : String) :
    ScriptOf FileCall.Reads (Script.files.readText path) (FileTree.files.readText path) := by
  have hread : ScriptOf FileCall.Reads (Script.files.readBytes path)
      (FileTree.files.readBytes path) := ScriptOf.call (c := .readBytes path) trivial
  refine hread.bind fun answer => ?_
  cases answer with
  | error e => exact ScriptOf.done _
  | ok bytes =>
    dsimp only
    cases String.fromUTF8? ⟨bytes.toArray⟩ with
    | none => exact ScriptOf.done _
    | some text => exact ScriptOf.done _

theorem scriptOf_fileIncludes (name : String) :
    ScriptOf FileCall.Reads (fileIncludes Script.files source name)
      (fileIncludes FileTree.files source name) := by
  refine (scriptOf_readText _).bind fun answer => ?_
  cases answer with
  | error e => exact ScriptOf.done _
  | ok text => exact ScriptOf.done _

theorem scriptOf_loadSource (path : String) :
    LoggedScriptOf FileCall.Reads (loadSource Script.files path)
      (loadSource FileTree.files path) :=
  (LoggedScriptOf.orFail (scriptOf_readText path)).bind fun _ => .ofLogged _

section

variable {includes : IncludeResolver Script} {includes' : IncludeResolver (StateM FileTree)}
  {entryPoint : String} {limit : Option Duration} {e : Effect}

theorem scriptOf_buildStage
    (hcompiler : ∀ request,
      ScriptOf allowed (scripted request includes) (compiler request includes'))
    (pass : String) (index : Nat) (st : Stage) :
    LoggedScriptOf allowed (st.build ⟨scripted, includes, entryPoint, limit⟩ e pass index)
      (st.build ⟨compiler, includes', entryPoint, limit⟩ e pass index) := by
  unfold Stage.build
  cases st.code? e with
  | none => exact .ofLogged _
  | some fragment =>
    refine LoggedScriptOf.bind (.ofLogged _) fun _ => ?_
    refine LoggedScriptOf.bind (.lift (hcompiler _)) fun answer => ?_
    dsimp only
    cases answer.toWords limit pass index st.kind with
    | error failure => exact .ofLogged _
    | ok code => exact .pure _

theorem scriptOf_buildStages
    (hcompiler : ∀ request,
      ScriptOf allowed (scripted request includes) (compiler request includes'))
    (pass : String) (index : Nat) (stages : List Stage) :
    LoggedScriptOf allowed (buildStages ⟨scripted, includes, entryPoint, limit⟩ e pass index stages)
      (buildStages ⟨compiler, includes', entryPoint, limit⟩ e pass index stages) := by
  induction stages generalizing index with
  | nil => exact .pure _
  | cons st stages ih =>
    refine LoggedScriptOf.bind (scriptOf_buildStage hcompiler pass index st) fun _ => ?_
    exact (ih (index + 1)).bind fun _ => .pure _

theorem scriptOf_build
    (hcompiler : ∀ request,
      ScriptOf allowed (scripted request includes) (compiler request includes')) :
    LoggedScriptOf allowed (e.build ⟨scripted, includes, entryPoint, limit⟩)
      (e.build ⟨compiler, includes', entryPoint, limit⟩) := by
  have hpasses : ∀ passes,
      LoggedScriptOf allowed (buildPasses ⟨scripted, includes, entryPoint, limit⟩ e passes)
        (buildPasses ⟨compiler, includes', entryPoint, limit⟩ e passes) := by
    intro passes
    induction passes with
    | nil => exact .pure _
    | cons p passes ih =>
      refine LoggedScriptOf.bind (scriptOf_buildStages hcompiler p.name 0 p.stages) fun _ => ?_
      exact ih.bind fun _ => .pure _
  exact (hpasses e.passes).bind fun _ => .pure _

end

/-- Making directories writes no file. -/
theorem scriptOf_makeDirectories (path : String) :
    ScriptOf (JobCall s source) (Script.files.makeDirectories path)
      (FileTree.files.makeDirectories path) := by
  have hmake : ∀ path, ScriptOf (JobCall s source) (Script.files.makeDirectory path)
      (FileTree.files.makeDirectory path) :=
    fun path => ScriptOf.call (c := .makeDirectory path) trivial
  have hthere : ∀ path, ScriptOf (JobCall s source) (Script.files.isDirectory path)
      (FileTree.files.isDirectory path) :=
    fun path => ScriptOf.call (c := .isDirectory path) trivial
  have hsettle : ∀ path result, ScriptOf (JobCall s source)
      (Script.files.settleDirectory path result) (FileTree.files.settleDirectory path result) := by
    intro path result
    cases result with
    | ok _ => exact ScriptOf.done _
    | error e =>
      refine (hthere path).bind fun there => ?_
      cases there with
      | false => exact ScriptOf.done _
      | true => exact ScriptOf.done _
  have hwithin : ∀ depth path, ScriptOf (JobCall s source)
      (Script.files.makeDirectoriesWithin depth path)
      (FileTree.files.makeDirectoriesWithin depth path) := by
    intro depth
    induction depth with
    | zero => exact fun _ => ScriptOf.done _
    | succ depth ih =>
      intro path
      unfold Files.makeDirectoriesWithin
      cases path.isEmpty with
      | true => exact ScriptOf.done _
      | false =>
        refine ScriptOf.bind (hmake path) fun result => ?_
        cases result with
        | ok _ => exact hsettle path _
        | error fault =>
          cases fault with
          | missing =>
            dsimp only
            cases parent? path with
            | none => exact ScriptOf.done _
            | some above =>
              refine ScriptOf.bind (ih above) fun result => ?_
              cases result with
              | error _ => exact ScriptOf.done _
              | ok _ => exact ScriptOf.bind (hmake path) fun result => hsettle path result
          | _ => exact hsettle path _
  exact hwithin _ path

theorem scriptOf_writeAll {todo : List (String × List UInt8)}
    (h : ∀ x ∈ todo, allowed (.write x.1 x.2)) :
    LoggedScriptOf allowed (writeAll Script.files todo) (writeAll FileTree.files todo) := by
  induction todo with
  | nil => exact .pure _
  | cons x todo ih =>
    obtain ⟨hx, htodo⟩ := List.forall_mem_cons.mp h
    have hwrite : ScriptOf allowed (Script.files.write x.1 x.2) (FileTree.files.write x.1 x.2) :=
      ScriptOf.call (c := .write x.1 x.2) hx
    exact LoggedScriptOf.bind (.orFail hwrite) fun _ => ih htodo

theorem dumpCall_of_mem {e : Effect} {x : String × List UInt8} (hx : x ∈ s.dumps source e) :
    DumpCall s source e (.write x.1 x.2) := by
  obtain ⟨p, _, hp⟩ := List.mem_flatMap.mp hx
  obtain ⟨st, _, hst⟩ := List.mem_map.mp hp
  exact ⟨p, st, by rw [← hst]⟩

/-- A job keeps to its calls, whatever it finds. -/
theorem scriptOf_compileOne (hcompiler : ReadsOnly scripted compiler) :
    LoggedScriptOf (JobCall s source) (compileOne Script.files scripted s source)
      (compileOne FileTree.files compiler s source) := by
  have hreads : ∀ c, FileCall.Reads c → JobCall s source c := fun _ => jobCall_of_reads
  refine LoggedScriptOf.bind ((scriptOf_loadSource source).imp hreads) fun e => ?_
  cases s.checkOnly with
  | true => exact LoggedScriptOf.bind (.ofLogged _) fun _ => .pure _
  | false =>
    have hbuild : LoggedScriptOf (JobCall s source)
        (e.build (s.buildContext Script.files scripted source))
        (e.build (s.buildContext FileTree.files compiler source)) :=
      scriptOf_build fun request =>
        (hcompiler request _ _ scriptOf_fileIncludes).imp hreads
    refine LoggedScriptOf.bind hbuild.mapError fun built => ?_
    refine LoggedScriptOf.bind (.orFail (.done _)) fun bytes => ?_
    refine LoggedScriptOf.bind (.orFail (scriptOf_makeDirectories _)) fun _ => ?_
    have hartifact : ScriptOf (JobCall s source)
        (Script.files.write (s.artifactFor source built) bytes)
        (FileTree.files.write (s.artifactFor source built) bytes) :=
      ScriptOf.call (c := .write (s.artifactFor source built) bytes) (Or.inl ⟨built, rfl⟩)
    refine LoggedScriptOf.bind (.orFail hartifact) fun _ => ?_
    cases hemit : s.emitSpirv with
    | false => exact LoggedScriptOf.bind (.ofLogged _) fun _ => .pure _
    | true =>
      have hdumps : ∀ x ∈ s.dumps source built, JobCall s source (.write x.1 x.2) := by
        intro x hx
        obtain ⟨p, st, hpath⟩ := dumpCall_of_mem hx
        exact Or.inr ⟨hemit, built, p, st, hpath⟩
      refine LoggedScriptOf.bind (scriptOf_writeAll hdumps) fun _ => ?_
      exact LoggedScriptOf.bind (.ofLogged _) fun _ => .pure _

end

end Kfx
