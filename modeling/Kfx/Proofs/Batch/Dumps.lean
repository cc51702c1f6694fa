import Mathlib.Data.List.Nodup
import Kfx.Proofs.Artifact.Codec
import Kfx.Proofs.Batch.Course

/-!
# The files with the words of the stages

They are written one after another, so where several of them meet, the last stage is the one whose
words are kept. Files of stages meet where the stages have one kind and their passes one name; a
pass name with a slash in it can lead anywhere.
-/
namespace Kfx

open Kfx.Path

/-- The stages of an effect in order, each with its pass. -/
def Effect.stages (e : Effect) : List (Pass × Stage) :=
  e.passes.flatMap fun p => p.stages.map (p, ·)

/-- What tells the files of stages apart. -/
def dumpKey (x : Pass × Stage) : String × StageKind :=
  (x.1.name, x.2.kind)

/-- Words can be told from their bytes. -/
theorem wordsToBytes_injective : Function.Injective wordsToBytes := by
  intro ws
  induction ws with
  | nil =>
    intro ws' h
    cases ws' with
    | nil => rfl
    | cons w ws' => simp [wordsToBytes, Codec.wordBytes] at h
  | cons w ws ih =>
    intro ws' h
    cases ws' with
    | nil => simp [wordsToBytes, Codec.wordBytes] at h
    | cons w' ws' =>
      obtain ⟨hword, hrest⟩ : Codec.wordBytes w = Codec.wordBytes w' ∧
          wordsToBytes ws = wordsToBytes ws' := List.append_inj h rfl
      have hsame := congrArg Codec.ofWordBytes hword
      rw [Codec.ofWordBytes_wordBytes, Codec.ofWordBytes_wordBytes] at hsame
      rw [hsame, ih hrest]

/-- The kinds of stages have names of one length. -/
theorem shortName_append_inj {name name' : List Char} {kind kind' : StageKind}
    (h : name ++ '.' :: kind.shortName.toList = name' ++ '.' :: kind'.shortName.toList) :
    name = name' ∧ kind = kind' := by
  have hlength : ∀ k : StageKind, ('.' :: k.shortName.toList).length = 5 := by
    intro k
    cases k <;> rfl
  obtain ⟨hname, hkind⟩ := List.append_inj' h ((hlength kind).trans (hlength kind').symm)
  refine ⟨hname, ?_⟩
  have hshort : kind.shortName = kind'.shortName :=
    String.toList_inj.mp (List.cons.inj hkind).2
  cases kind <;> cases kind' <;> simp [StageKind.shortName] at hshort ⊢

theorem dumpName_injective {stem : String} {x y : Pass × Stage}
    (h : dumpName stem x.1 x.2 = dumpName stem y.1 y.2) : dumpKey x = dumpKey y := by
  have hchars := congrArg String.toList h
  simp only [dumpName, String.toList_append] at hchars
  have hfront := List.append_cancel_right hchars
  simp only [List.append_assoc] at hfront
  have hnames := List.append_cancel_left (List.append_cancel_left hfront)
  obtain ⟨hname, hkind⟩ := shortName_append_inj hnames
  exact Prod.ext (String.toList_inj.mp hname) hkind

section

variable {compiler : Compiler (StateM FileTree)} {s : Settings} {source : String} {t t' : FileTree}
  {built : Effect} {bytes : List UInt8}

theorem dumps_eq (s : Settings) (source : String) (e : Effect) :
    s.dumps source e =
      e.stages.map fun x => (s.dumpFor source e x.1 x.2, wordsToBytes x.2.bytecode) := by
  simp [Settings.dumps, Effect.stages, List.map_flatMap]
  rfl

def FileTree.Meet (t : FileTree) (path path' : String) : Prop :=
  ∃ X, (t.locate path).location? = some X ∧ (t.locate path').location? = some X

/-- The words of a stage whose pass has a name without a slash go right into the directory. -/
theorem HasStem.dump_location {stem : String} {X : Location} {x : Pass × Stage}
    (h : HasStem source stem) (hplain : '/' ∉ x.1.name.toList)
    (hX : (t.locate (s.dumpFor source built x.1 x.2)).location? = some X) :
    X = t.locationOf (s.outputFor source) ++ [dumpName stem x.1 x.2] := by
  have hkind : '/' ∉ x.2.kind.shortName.toList := by
    cases x.2.kind <;> decide
  have hname : '/' ∉ (dumpName stem x.1 x.2).toList := by
    simp [dumpName, h.plain, hplain, hkind]
  have hsuffix : ".spv".toList <:+ (dumpName stem x.1 x.2).toList := by
    rw [dumpName, String.toList_append]
    exact List.suffix_append _ _
  have hlong : 4 ≤ (dumpName stem x.1 x.2).toList.length := hsuffix.length_le
  have hne : dumpName stem x.1 x.2 ≠ "" ∧ dumpName stem x.1 x.2 ≠ "." ∧
      dumpName stem x.1 x.2 ≠ ".." := by
    refine ⟨?_, ?_, ?_⟩ <;>
    · intro heq
      rw [heq] at hlong
      simp at hlong
  have hsteps : FileTree.steps (dumpName stem x.1 x.2) = [dumpName stem x.1 x.2] := by
    simp [FileTree.steps, pieces_of_plain hname, hne.1]
  rw [h.dumpFor] at hX
  rw [FileTree.location?_join (h.isAbsolute_dumpName x.1 x.2) hX, hsteps, FileTree.along,
    if_neg hne.2.1, if_neg hne.2.2, FileTree.along]

/-- Every file of a stage has the words of the last stage whose file is at its location. -/
theorem readBytes_dumpFor (hemit : s.emitSpirv = true)
    (h : t.Changes (s.outputs source built bytes) t') {x : Pass × Stage} (hx : x ∈ built.stages) :
    ∃ before y after, built.stages = before ++ y :: after ∧
      t'.Meet (s.dumpFor source built y.1 y.2) (s.dumpFor source built x.1 x.2) ∧
      (∀ z ∈ after,
        ¬ t'.Meet (s.dumpFor source built z.1 z.2) (s.dumpFor source built x.1 x.2)) ∧
      t'.readBytes (s.dumpFor source built x.1 x.2) = .ok (wordsToBytes y.2.bytecode) := by
  have houtputs : s.outputs source built bytes =
      (s.artifactFor source built, bytes) :: s.dumps source built := by
    rw [Settings.outputs, if_pos hemit]
  have hdump : (s.dumpFor source built x.1 x.2, wordsToBytes x.2.bytecode) ∈
      s.dumps source built := by
    rw [dumps_eq]
    exact List.mem_map_of_mem hx
  rw [houtputs] at h
  obtain ⟨X, last, hX, hlast, hread⟩ := h.readBytes_of_mem (List.mem_cons_of_mem _ hdump)
  have hlast' : t'.lastAt? (s.dumps source built) X = some last := by
    rw [FileTree.lastAt?_cons] at hlast
    cases hdumps : t'.lastAt? (s.dumps source built) X with
    | none => exact absurd hX (FileTree.lastAt?_eq_none.mp hdumps _ _ hdump)
    | some later =>
      rw [hdumps] at hlast
      split at hlast
      · exact hlast
      · exact hlast
  obtain ⟨before, path, after, hsplit, hpath, hafter⟩ := FileTree.lastAt?_eq_some hlast'
  rw [dumps_eq] at hsplit
  obtain ⟨before', rest, hstages, _, hrest⟩ := List.map_eq_append_iff.mp hsplit
  obtain ⟨y, after', rfl, hy, rfl⟩ := List.map_eq_cons_iff.mp hrest
  obtain ⟨rfl, rfl⟩ := Prod.mk.inj hy
  refine ⟨before', y, after', hstages, ⟨X, hpath, hX⟩, ?_, hread⟩
  rintro z hz ⟨Y, hzY, hxY⟩
  have hsame : X = Y := Option.some.inj (hX.symm.trans hxY)
  rw [← hsame] at hzY
  exact FileTree.lastAt?_eq_none.mp hafter _ _ (List.mem_map_of_mem hz) hzY

/-- Files that can be read at two paths to one location are the same. -/
theorem readBytes_eq_of_meet {path path' : String} {old old' : List UInt8}
    (hmeet : t.Meet path path') (h : t.readBytes path = .ok old)
    (h' : t.readBytes path' = .ok old') : old = old' := by
  obtain ⟨X, hX, hX'⟩ := hmeet
  obtain ⟨_, Y, hfound⟩ := FileTree.readBytes_eq_ok.mp h
  obtain ⟨_, Y', hfound'⟩ := FileTree.readBytes_eq_ok.mp h'
  rw [hfound] at hX
  rw [hfound'] at hX'
  cases hX
  cases hX'
  have hsame := (FileTree.lookup_of_found hfound).symm.trans (FileTree.lookup_of_found hfound')
  cases hsame
  rfl

/-- Every stage finds its own words in its file. -/
def HoldsOwnWords (s : Settings) (source : String) (built : Effect) (t : FileTree) : Prop :=
  ∀ x ∈ built.stages,
    t.readBytes (s.dumpFor source built x.1 x.2) = .ok (wordsToBytes x.2.bytecode)

/-- That is so where files of stages meet only if the words are the same. -/
theorem holdsOwnWords_iff (hemit : s.emitSpirv = true)
    (h : t.Changes (s.outputs source built bytes) t') :
    HoldsOwnWords s source built t' ↔ ∀ x ∈ built.stages, ∀ y ∈ built.stages,
      t'.Meet (s.dumpFor source built x.1 x.2) (s.dumpFor source built y.1 y.2) →
        x.2.bytecode = y.2.bytecode := by
  constructor
  · intro hown x hx y hy hmeet
    exact wordsToBytes_injective (readBytes_eq_of_meet hmeet (hown x hx) (hown y hy))
  · intro hsame x hx
    obtain ⟨before, y, after, hstages, hmeet, _, hread⟩ := readBytes_dumpFor hemit h hx
    have hy : y ∈ built.stages := by simp [hstages]
    rw [hread, hsame y hy x hx hmeet]

/-- Without slashes in the names of passes, files of stages meet where nothing tells them apart. -/
theorem meet_dumpFor_iff {stem : String} (hstem : HasStem source stem) (hemit : s.emitSpirv = true)
    (h : t.Changes (s.outputs source built bytes) t')
    (hplain : ∀ p ∈ built.passes, '/' ∉ p.name.toList) {x y : Pass × Stage}
    (hx : x ∈ built.stages) (hy : y ∈ built.stages) :
    t'.Meet (s.dumpFor source built x.1 x.2) (s.dumpFor source built y.1 y.2) ↔
      dumpKey x = dumpKey y := by
  have hpass : ∀ {z}, z ∈ built.stages → '/' ∉ z.1.name.toList := by
    intro z hz
    obtain ⟨p, hp, hmem⟩ := List.mem_flatMap.mp hz
    obtain ⟨st, _, rfl⟩ := List.mem_map.mp hmem
    exact hplain p hp
  constructor
  · rintro ⟨X, hX, hY⟩
    have hname : [dumpName stem x.1 x.2] = [dumpName stem y.1 y.2] :=
      List.append_cancel_left ((hstem.dump_location (hpass hx) hX).symm.trans
        (hstem.dump_location (hpass hy) hY))
    exact dumpName_injective (List.cons.inj hname).1
  · intro hkey
    obtain ⟨hname, hkind⟩ := Prod.mk.inj hkey
    have hpath : s.dumpFor source built x.1 x.2 = s.dumpFor source built y.1 y.2 := by
      rw [hstem.dumpFor, hstem.dumpFor, dumpName, dumpName, hname, hkind]
    obtain ⟨_, _, _, _, ⟨X, _, hX⟩, _, _⟩ := readBytes_dumpFor hemit h hx
    rw [← hpath]
    exact ⟨X, hX, hX⟩

/-- A source that was written with the words of its stages: each file of a stage holds the words of
the last stage whose file is at its location, so all hold the words of their own stages just where
files meet with the same words. Without slashes in the names of passes, files meet only if their
stages have one kind and their passes one name. -/
theorem words_of_written_source (hcompiler : KeepsFiles compiler) (ht : t.WellFormed)
    (hemit : s.emitSpirv = true) {artifact : String}
    (hrun : (compileOne FileTree.files compiler s source).runFrom t =
      (.ok (.written artifact), t')) :
    ∃ built bytes, prepared compiler s source t = .ok (built, bytes) ∧
      artifact = s.artifactFor source built ∧
      (∀ x ∈ built.stages, ∃ before y after, built.stages = before ++ y :: after ∧
        t'.Meet (s.dumpFor source built y.1 y.2) (s.dumpFor source built x.1 x.2) ∧
        (∀ z ∈ after,
          ¬ t'.Meet (s.dumpFor source built z.1 z.2) (s.dumpFor source built x.1 x.2)) ∧
        t'.readBytes (s.dumpFor source built x.1 x.2) = .ok (wordsToBytes y.2.bytecode)) ∧
      (HoldsOwnWords s source built t' ↔ ∀ x ∈ built.stages, ∀ y ∈ built.stages,
        t'.Meet (s.dumpFor source built x.1 x.2) (s.dumpFor source built y.1 y.2) →
          x.2.bytecode = y.2.bytecode) ∧
      ((∀ p ∈ built.passes, '/' ∉ p.name.toList) →
        (∀ x ∈ built.stages, ∀ y ∈ built.stages,
          t'.Meet (s.dumpFor source built x.1 x.2) (s.dumpFor source built y.1 y.2) ↔
            dumpKey x = dumpKey y) ∧
        ((built.stages.map dumpKey).Nodup → HoldsOwnWords s source built t')) := by
  obtain ⟨ws, hruns⟩ := jobRuns_of_runFrom hcompiler hrun
  obtain ⟨built, bytes, hprepared, rfl, hchanges⟩ := hruns.of_written
  obtain ⟨text, hread⟩ := readBytes_of_prepared hprepared
  obtain ⟨stem, hstem⟩ := hasStem_of_readBytes ht hread
  refine ⟨built, bytes, hprepared, rfl, fun x => readBytes_dumpFor hemit hchanges,
    holdsOwnWords_iff hemit hchanges, fun hplain => ?_⟩
  have hmeet : ∀ x ∈ built.stages, ∀ y ∈ built.stages,
      t'.Meet (s.dumpFor source built x.1 x.2) (s.dumpFor source built y.1 y.2) ↔
        dumpKey x = dumpKey y :=
    fun x hx y hy => meet_dumpFor_iff hstem hemit hchanges hplain hx hy
  refine ⟨hmeet, fun hnodup => (holdsOwnWords_iff hemit hchanges).mpr ?_⟩
  intro x hx y hy hxy
  rw [List.inj_on_of_nodup_map hnodup hx hy ((hmeet x hx y hy).mp hxy)]

end

def lengthCompiler {m : Type → Type} [Monad m] : Compiler m :=
  fun request _ => return .words [UInt32.ofNat request.source.length]

theorem keepsFiles_lengthCompiler : KeepsFiles lengthCompiler :=
  fun _ _ _ => quiet_pure _

/-- Three stages, no two of one kind in passes of one name. -/
def distinctStages : FileTree :=
  oneSource "a.kfx" ("Pass P \x7b VertexShader F FragmentShader F \x7d " ++
    "Pass Q \x7b FragmentShader G \x7d GLSL F \x7b f \x7d GLSL G \x7b gg \x7d")

theorem runJob_distinctStages :
    (runJob lengthCompiler wordsWanted "in/a.kfx" distinctStages).1.result =
      .ok (.written "out/a.kfxb") := by
  decide +kernel

theorem prepared_distinctStages :
    ((prepared lengthCompiler wordsWanted "in/a.kfx" distinctStages).toOption.map fun made =>
      (made.1.passes.map Pass.name, made.1.stages.map dumpKey)) =
      some (["P", "Q"], [("P", .vertex), ("P", .fragment), ("Q", .fragment)]) := by
  decide +kernel

theorem distinctStages_words :
    KeepsFiles lengthCompiler ∧ distinctStages.WellFormed ∧
    ∃ built bytes,
      prepared lengthCompiler wordsWanted "in/a.kfx" distinctStages = .ok (built, bytes) ∧
      built.stages.map dumpKey = [("P", .vertex), ("P", .fragment), ("Q", .fragment)] ∧
      HoldsOwnWords wordsWanted "in/a.kfx" built
        (runJob lengthCompiler wordsWanted "in/a.kfx" distinctStages).2 := by
  have ht : distinctStages.WellFormed := oneSource_wellFormed (by simp [IsName]) _
  have hrun := runFrom_eq_runJob lengthCompiler wordsWanted "in/a.kfx" distinctStages
  rw [runJob_distinctStages] at hrun
  obtain ⟨built, bytes, hprepared, _, _, _, hown⟩ :=
    words_of_written_source keepsFiles_lengthCompiler ht rfl hrun
  have hmade := prepared_distinctStages
  rw [hprepared] at hmade
  obtain ⟨hnames, hkeys⟩ := Prod.mk.inj (Option.some.inj hmade)
  refine ⟨keepsFiles_lengthCompiler, ht, built, bytes, hprepared, hkeys, (hown fun p hp => ?_).2 ?_⟩
  · have hname : p.name ∈ ["P", "Q"] := hnames ▸ List.mem_map_of_mem hp
    simp only [List.mem_cons, List.not_mem_nil, or_false] at hname
    rcases hname with hname | hname <;> simp [hname]
  · rw [hkeys]
    decide

/-- Two passes of one name, each with a stage of one kind. -/
def samePasses : FileTree :=
  oneSource "a.kfx" ("Pass P \x7b FragmentShader F \x7d Pass P \x7b FragmentShader G \x7d " ++
    "GLSL F \x7b f \x7d GLSL G \x7b gg \x7d")

/-- The source is written, but the words of its first stage are nowhere: the second stage has put
its own in their place. -/
theorem words_replaced :
    (runJob lengthCompiler wordsWanted "in/a.kfx" samePasses).1.result =
      .ok (.written "out/a.kfxb") ∧
    ∃ built bytes, prepared lengthCompiler wordsWanted "in/a.kfx" samePasses = .ok (built, bytes) ∧
      ¬ HoldsOwnWords wordsWanted "in/a.kfx" built
        (runJob lengthCompiler wordsWanted "in/a.kfx" samePasses).2 := by
  refine ⟨by decide +kernel, ?_⟩
  have hother : ((prepared lengthCompiler wordsWanted "in/a.kfx" samePasses).toOption.map
      fun made => made.1.stages.all fun x =>
        decide (((runJob lengthCompiler wordsWanted "in/a.kfx" samePasses).2.readBytes
          (wordsWanted.dumpFor "in/a.kfx" made.1 x.1 x.2)).toOption =
            some (wordsToBytes x.2.bytecode))) = some false := by
    decide +kernel
  cases hprepared : prepared lengthCompiler wordsWanted "in/a.kfx" samePasses with
  | error err =>
    rw [hprepared] at hother
    cases hother
  | ok made =>
    obtain ⟨built, bytes⟩ := made
    refine ⟨built, bytes, rfl, fun hown => ?_⟩
    rw [hprepared] at hother
    have hall : (built.stages.all fun x =>
        decide (((runJob lengthCompiler wordsWanted "in/a.kfx" samePasses).2.readBytes
          (wordsWanted.dumpFor "in/a.kfx" built x.1 x.2)).toOption =
            some (wordsToBytes x.2.bytecode))) = true := by
      rw [List.all_eq_true]
      intro x hx
      rw [decide_eq_true_eq, hown x hx]
      rfl
    exact Bool.false_ne_true ((Option.some.inj hother).symm.trans hall)

end Kfx
