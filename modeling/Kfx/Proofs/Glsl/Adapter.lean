import Kfx.Glsl.Adapter
import Kfx.Proofs.Glsl.Expansion
import Kfx.Proofs.Text.Lines

/-!
# What reaches a front end

Expanded text may be cut into other lines than it was put together from, since a line may end with
carriage returns of its own; still none of the new lines names a file, and the text says its
version.
-/
namespace Kfx.Glsl

/-- A line that says the version stands in the text, at any indentation. -/
def SaysVersion (text : String) : Prop :=
  ∃ line ∈ Text.lines text.toList, ∃ blanks rest, (∀ c ∈ blanks, Text.isBlank c) ∧
    line = blanks ++ "#version".toList ++ rest

/-- A text that a front end can take: no line names a file, and some line says the version. -/
structure Preprocessed (text : String) : Prop where
  plain : ∀ line ∈ Text.lines text.toList, includeTarget? line = none
  version : SaysVersion text

/-- What a compiler asks for. -/
inductive Call
  | file (path : String)
  | job (job : Job)
  deriving DecidableEq

/-- The answer of a compiler over a front end, and all it asked for on the way, in order. -/
def compileRecord (frontEnd : Job → Except Fault (List UInt32)) (limit : Nat) (library : Library)
    (request : StageRequest) : Answer × List Call :=
  let recorded : FrontEnd (StateM (List Call)) := fun job => do
    modify (· ++ [.job job])
    return frontEnd job
  ((compiler recorded limit request (library.recorded .file)).run []).run

theorem afterStart?_eq_some_iff {start cs rest : List Char} :
    afterStart? start cs = some rest ↔ cs = start ++ rest := by
  rw [afterStart?]
  split
  · rename_i hstart
    obtain ⟨more, rfl⟩ := List.isPrefixOf_iff_prefix.mp hstart
    simp
  · rename_i hstart
    constructor
    · intro h
      cases h
    · rintro rfl
      exact absurd (List.isPrefixOf_iff_prefix.mpr (List.prefix_append _ _)) hstart

/-- A carriage return behind a text stays behind what follows a beginning of it. -/
theorem afterStart?_dropBlanks_append_return {start : List Char} (hne : start ≠ [])
    (hstart : '\r' ∉ start) (cs : List Char) :
    afterStart? start (Text.dropBlanks (cs ++ ['\r'])) =
      (afterStart? start (Text.dropBlanks cs)).map (· ++ ['\r']) := by
  rw [Text.dropBlanks_append_blank (by decide)]
  split
  · rename_i hnone
    rw [hnone]
    cases start with
    | nil => exact absurd rfl hne
    | cons c start => rfl
  · ext rest
    rw [afterStart?_eq_some_iff, Option.map_eq_some_iff]
    constructor
    · intro h
      -- the return is the last character, so it lies in `start` or at the end of `rest`
      rcases List.eq_nil_or_concat rest with rfl | ⟨more, c, rfl⟩
      · rw [List.append_nil] at h
        exact absurd (h ▸ List.mem_append_right _ List.mem_cons_self) hstart
      · rw [List.concat_eq_append, ← List.append_assoc] at h
        obtain ⟨hmore, hc⟩ := List.append_inj' h rfl
        cases hc
        exact ⟨more, afterStart?_eq_some_iff.mpr hmore, (List.concat_eq_append ..).symm⟩
    · rintro ⟨more, hmore, rfl⟩
      rw [afterStart?_eq_some_iff.mp hmore, List.append_assoc]

theorem includeTarget?_append_return (line : List Char) :
    includeTarget? (line ++ ['\r']) = includeTarget? line := by
  rw [includeTarget?, includeTarget?, afterStart?_dropBlanks_append_return (by decide) (by decide)]
  cases afterStart? ['#'] (Text.dropBlanks line) with
  | none => rfl
  | some r =>
    simp only [Option.map_some, Option.bind_eq_bind, Option.bind_some]
    rw [afterStart?_dropBlanks_append_return (by decide) (by decide)]
    cases afterStart? "include".toList (Text.dropBlanks r) with
    | none => rfl
    | some r =>
      rw [Option.map_some, Option.bind_some, Option.bind_some, Text.trim_append_blank (by decide)]

theorem includeTarget?_dropReturn (line : List Char) :
    includeTarget? (Text.dropReturn line) = includeTarget? line := by
  rcases Text.dropReturn_cases line with h | h
  · rw [h]
  · conv_rhs => rw [h]
    exact (includeTarget?_append_return _).symm

theorem lines_unlines {lines : List (List Char)} (hlines : ∀ line ∈ lines, '\n' ∉ line) :
    Text.lines (unlines lines) = lines.map Text.dropReturn := by
  induction lines with
  | nil => rfl
  | cons line lines ih =>
    have hrest := ih fun line hline => hlines line (List.mem_cons_of_mem _ hline)
    rw [unlines, List.flatMap_cons, List.append_assoc, List.singleton_append,
      Text.lines_append_newline (hlines line List.mem_cons_self), List.map_cons]
    exact congrArg _ hrest

/-- The lines that are left of a tree are plain ones of the source or of a file. -/
theorem Unfolds.plain {library : Library} {others : List (List Char)} {tree : IncludeTree}
    (h : Unfolds library others tree) (hothers : ∀ line ∈ others, '\n' ∉ line) :
    ∀ line ∈ tree.lines, includeTarget? line = none ∧ '\n' ∉ line := by
  induction h with
  | done =>
    intro line hline
    cases hline
  | line plain _ ih =>
    intro line hline
    rcases List.mem_cons.mp hline with rfl | hline
    · exact ⟨plain, hothers _ List.mem_cons_self⟩
    · exact ih (fun line h => hothers line (List.mem_cons_of_mem _ h)) line hline
  | file _ _ _ _ within ih =>
    intro line hline
    rcases List.mem_append.mp hline with hline | hline
    · exact within (fun _ => Text.newline_notMem_of_mem_lines) line hline
    · exact ih (fun line h => hothers line (List.mem_cons_of_mem _ h)) line hline

/-- Cutting expanded text into lines brings no include line back. -/
theorem plain_of_expansion {limit : Nat} {library : Library} {source text : String}
    (h : expansion limit library source = .ok text) :
    ∀ line ∈ Text.lines text.toList, includeTarget? line = none := by
  obtain ⟨tree, htree, _, rfl⟩ := expansion_eq_ok_iff.mp h
  have hplain := htree.plain fun _ => Text.newline_notMem_of_mem_lines
  rw [IncludeTree.text, String.toList_ofList, lines_unlines fun line hline => (hplain line hline).2]
  intro line hline
  obtain ⟨line, hmem, rfl⟩ := List.mem_map.mp hline
  rw [includeTarget?_dropReturn]
  exact (hplain line hmem).1

theorem isVersionLine_iff {line : List Char} :
    isVersionLine line ↔ ∃ blanks rest, (∀ c ∈ blanks, Text.isBlank c) ∧
      line = blanks ++ "#version".toList ++ rest := by
  rw [isVersionLine, List.isPrefixOf_iff_prefix]
  constructor
  · rintro ⟨rest, hrest⟩
    refine ⟨line.takeWhile Text.isBlank, rest, List.all_eq_true.mp List.all_takeWhile, ?_⟩
    rw [List.append_assoc, hrest]
    exact List.takeWhile_append_dropWhile.symm
  · rintro ⟨blanks, rest, hblanks, rfl⟩
    rw [Text.dropBlanks, List.append_assoc, List.dropWhile_append_of_pos hblanks]
    exact ⟨rest, rfl⟩

theorem any_isVersionLine_iff {text : String} :
    (Text.lines text.toList).any isVersionLine ↔ SaysVersion text := by
  rw [List.any_eq_true, SaysVersion]
  exact exists_congr fun line => and_congr_right fun _ => isVersionLine_iff

theorem lines_version_append (text : String) :
    Text.lines ("#version 450\n" ++ text).toList =
      "#version 450".toList :: Text.lines text.toList := by
  rw [String.toList_append]
  exact Text.lines_append_newline (by decide : '\n' ∉ "#version 450".toList) text.toList

section

variable {text : String}

theorem withVersion_of_version (h : SaysVersion text) : withVersion text = text :=
  if_pos (any_isVersionLine_iff.mpr h)

theorem withVersion_of_no_version (h : ¬ SaysVersion text) :
    withVersion text = "#version 450\n" ++ text :=
  if_neg fun hany => h (any_isVersionLine_iff.mp hany)

theorem preprocessed_withVersion
    (hplain : ∀ line ∈ Text.lines text.toList, includeTarget? line = none) :
    Preprocessed (withVersion text) := by
  by_cases h : SaysVersion text
  · rw [withVersion_of_version h]
    exact ⟨hplain, h⟩
  · rw [withVersion_of_no_version h]
    constructor
    · rw [lines_version_append]
      intro line hline
      rcases List.mem_cons.mp hline with rfl | hline
      · decide
      · exact hplain line hline
    · rw [SaysVersion, lines_version_append]
      exact ⟨_, List.mem_cons_self, [], " 450".toList, by simp, rfl⟩

end

theorem job_notMem_map_file {job : Job} {paths : List String} :
    .job job ∉ paths.map Call.file := by
  simp

theorem exists_ofKind? {kind : StageKind} (h : kind ≠ .geometry) :
    ∃ stage, ShaderStage.ofKind? kind = some stage := by
  cases kind with
  | geometry => exact absurd rfl h
  | vertex | fragment | compute => exact ⟨_, rfl⟩

section

variable {frontEnd : Job → Except Fault (List UInt32)} {limit : Nat} {library : Library}
  {request : StageRequest} {stage : ShaderStage}

theorem compileRecord_of_geometry (h : request.stage = .geometry) :
    ∃ message, compileRecord frontEnd limit library request = (.refused message, []) := by
  simp only [compileRecord, compiler, h]
  exact ⟨_, rfl⟩

theorem compileRecord_of_error {reason : String}
    (hstage : ShaderStage.ofKind? request.stage = some stage)
    (h : expansion limit library request.source = .error reason) :
    compileRecord frontEnd limit library request =
      (.refused reason, (expansionRecord limit library request.source).2.map .file) := by
  have hrun := run_expandIncludes_recorded limit library request.source Call.file []
  simp only [compileRecord, compiler, hstage, StateT.run_bind, Id.run_bind, hrun, h,
    expansionRecord_eq]
  rfl

theorem compileRecord_of_ok {text : String}
    (hstage : ShaderStage.ofKind? request.stage = some stage)
    (h : expansion limit library request.source = .ok text) :
    ∃ answer job, job.source = withVersion text ∧
      compileRecord frontEnd limit library request =
        (answer, (expansionRecord limit library request.source).2.map .file ++ [.job job]) := by
  have hrun := run_expandIncludes_recorded limit library request.source Call.file []
  let job : Job :=
    { stage, defines := settle request.defines, source := withVersion text,
      entryPoint := request.entryPoint }
  simp only [compileRecord, compiler, hstage, StateT.run_bind, Id.run_bind, hrun, h,
    expansionRecord_eq]
  cases frontEnd job with
  | ok code => exact ⟨_, job, rfl, rfl⟩
  | error fault => exact ⟨_, job, rfl, rfl⟩

end

/-- A geometry request is refused with nothing asked. Any other is refused with the failure of its
expansion, or its code is handed over once, after the files; and then it is preprocessed, being the
expansion itself or, exactly if that does not say a version, the expansion under a version line. -/
theorem compileRecord_preprocessed (frontEnd : Job → Except Fault (List UInt32)) (limit : Nat)
    (library : Library) (request : StageRequest) :
    (request.stage = .geometry →
      ∃ message, compileRecord frontEnd limit library request = (.refused message, [])) ∧
    (request.stage ≠ .geometry →
      ∀ reason, expansion limit library request.source = .error reason →
        compileRecord frontEnd limit library request =
          (.refused reason, (expansionRecord limit library request.source).2.map .file)) ∧
    (request.stage ≠ .geometry →
      ∀ text, expansion limit library request.source = .ok text →
        ∃ answer job, compileRecord frontEnd limit library request =
          (answer, (expansionRecord limit library request.source).2.map .file ++ [.job job])) ∧
    ∀ job, .job job ∈ (compileRecord frontEnd limit library request).2 →
      Preprocessed job.source ∧
      ∃ text, expansion limit library request.source = .ok text ∧
        (SaysVersion text → job.source = text) ∧
        (¬ SaysVersion text → job.source = "#version 450\n" ++ text) := by
  by_cases hgeometry : request.stage = .geometry
  · obtain ⟨message, hrecord⟩ : ∃ message, compileRecord frontEnd limit library request =
        (.refused message, []) := compileRecord_of_geometry hgeometry
    refine ⟨fun _ => ⟨message, hrecord⟩, absurd hgeometry, absurd hgeometry, fun job hjob => ?_⟩
    rw [hrecord] at hjob
    cases hjob
  · obtain ⟨stage, hstage⟩ := exists_ofKind? hgeometry
    refine ⟨fun h => absurd h hgeometry, fun _ reason => compileRecord_of_error hstage, ?_, ?_⟩
    · intro _ text htext
      obtain ⟨answer, job, _, hrecord⟩ := compileRecord_of_ok hstage htext
      exact ⟨answer, job, hrecord⟩
    · intro job hjob
      cases hexpansion : expansion limit library request.source with
      | error reason =>
        rw [compileRecord_of_error hstage hexpansion] at hjob
        exact absurd hjob job_notMem_map_file
      | ok text =>
        obtain ⟨answer, handed, hsource, hrecord⟩ := compileRecord_of_ok hstage hexpansion
        rw [hrecord] at hjob
        rcases List.mem_append.mp hjob with hjob | hjob
        · exact absurd hjob job_notMem_map_file
        · cases List.mem_singleton.mp hjob
          rw [hsource]
          exact ⟨preprocessed_withVersion (plain_of_expansion hexpansion), text, rfl,
            withVersion_of_version, withVersion_of_no_version⟩

/-- A fragment with carriage returns before its line ends. -/
def sampleRequest : StageRequest where
  source := "float k;\r\r\n#include \"left\"\r\r\nvoid main() \x7b\x7d"
  stage := .fragment
  entryPoint := "main"
  defines := [("N", "1"), ("N", "2")]
  fileName := "a.frag"

def sampleJob : Job where
  stage := .fragment
  defines := [("N", "2")]
  source := "#version 450\nfloat k;\r\nfloat s;\nfloat l;\nvoid main() \x7b\x7d\n"
  entryPoint := "main"

theorem compileRecord_preprocessed_sample :
    compileRecord (fun _ => .ok [7]) 2 sampleLibrary sampleRequest =
      (.words [7], [.file "left", .file "shared", .job sampleJob]) ∧
    Preprocessed sampleJob.source ∧
    ∃ message, compileRecord (fun _ => .ok [7]) 2 sampleLibrary
      { sampleRequest with stage := .geometry } = (.refused message, []) := by
  have hrecord : compileRecord (fun _ => .ok [7]) 2 sampleLibrary sampleRequest =
      (.words [7], [.file "left", .file "shared", .job sampleJob]) := by decide +kernel
  have hjob : .job sampleJob ∈
      (compileRecord (fun _ => .ok [7]) 2 sampleLibrary sampleRequest).2 := by
    rw [hrecord]
    decide
  exact ⟨hrecord, ((compileRecord_preprocessed _ _ _ _).2.2.2 sampleJob hjob).1,
    (compileRecord_preprocessed _ _ _ _).1 rfl⟩

end Kfx.Glsl
