import Mathlib.Data.List.Basic
import Kfx.Proofs.Glsl.IncludeTree

/-!
# Expansion of include lines

It succeeds exactly when every file of the include tree is there and none is nested deeper than the
limit, and then gives the lines that are left of the tree, in document order. Files are asked for in
the same order, up to the first that fails.
-/
namespace Kfx.Glsl

/-- What is met when a source is read in document order, each file at the place of its line. -/
inductive Step
  | line (text : List Char)
  | found (path : String)
  /-- The file is missing, or it is nested too deep. -/
  | failed (path reason : String)
  deriving DecidableEq

namespace Step

def line? : Step → Option (List Char)
  | line text => some text
  | _ => none

def path? : Step → Option String
  | line _ => none
  | found path => some path
  | failed path _ => some path

/-- The paths asked for, up to and including the first that fails. -/
def asked : List Step → List String
  | [] => []
  | line _ :: rest => asked rest
  | found path :: rest => path :: asked rest
  | failed path _ :: _ => [path]

/-- The lines that are met, unless something fails. -/
def outcome : List Step → Except String (List (List Char))
  | [] => .ok []
  | line text :: rest => (outcome rest).map (text :: ·)
  | found _ :: rest => outcome rest
  | failed _ reason :: _ => .error reason

end Step

/-- The steps of a line, if those of the file it names are given. -/
def lineSteps (files : String → List Step) (line : List Char) : List Step :=
  match includeTarget? line with
  | none => [.line line]
  | some path => files path

/-- The steps of a file; there may be `levels` files around one another, this one included. -/
def fileSteps (limit : Nat) (library : Library) : (levels : Nat) → String → List Step
  | 0, path =>
    match library path with
    | .error reason => [.failed path reason]
    | .ok _ => [.failed path s!"#include nesting deeper than {limit}"]
  | levels + 1, path =>
    match library path with
    | .error reason => [.failed path reason]
    | .ok content =>
      .found path ::
        (Text.lines content.toList).flatMap (lineSteps (fileSteps limit library levels))

/-- The steps of a source with files nested up to a limit. -/
def steps (limit : Nat) (library : Library) (source : String) : List Step :=
  (Text.lines source.toList).flatMap (lineSteps (fileSteps limit library limit))

def Step.Complete (steps : List Step) : Prop :=
  ∀ path reason, .failed path reason ∉ steps

/-- How an expansion may go: what comes of it, and the files that were asked for. -/
inductive Course (steps : List Step) : Except String String × List String → Prop
  | done (complete : Step.Complete steps) :
    Course steps
      (.ok (String.ofList (unlines (steps.filterMap Step.line?))), steps.filterMap Step.path?)
  /-- The file at `path` is the first that fails, and the last that is asked for. -/
  | stopped {before after : List Step} {path reason : String}
    (place : steps = before ++ .failed path reason :: after)
    (earlier : Step.Complete before) :
    Course steps (.error reason, before.filterMap Step.path? ++ [path])

theorem map_eq_ok {ε α β : Type} {x : Except ε α} {f : α → β} {b : β} :
    x.map f = .ok b ↔ ∃ a, x = .ok a ∧ b = f a := by
  cases x with
  | error e => exact ⟨fun h => (by cases h), fun ⟨_, h, _⟩ => (by cases h)⟩
  | ok a =>
    constructor
    · intro h
      cases h
      exact ⟨a, rfl, rfl⟩
    · rintro ⟨a', ha, rfl⟩
      cases ha
      rfl

namespace Step

variable {first : List Step}

/-- Steps behind a failure are never reached. -/
theorem append_of_error {reason : String} (h : outcome first = .error reason)
    (second : List Step) :
    outcome (first ++ second) = .error reason ∧ asked (first ++ second) = asked first := by
  induction first with
  | nil => cases h
  | cons step first ih =>
    cases step with
    | failed path reason' => exact ⟨h, rfl⟩
    | found path =>
      obtain ⟨houtcome, hasked⟩ := ih h
      exact ⟨houtcome, congrArg (path :: ·) hasked⟩
    | line text =>
      rw [outcome] at h
      cases hrest : outcome first with
      | ok others =>
        rw [hrest] at h
        cases h
      | error reason' =>
        rw [hrest] at h
        cases h
        obtain ⟨houtcome, hasked⟩ := ih hrest
        refine ⟨?_, hasked⟩
        rw [List.cons_append, outcome, houtcome]
        rfl

/-- Behind steps that succeed the rest goes on. -/
theorem append_of_ok {lines : List (List Char)} (h : outcome first = .ok lines)
    (second : List Step) :
    outcome (first ++ second) = (outcome second).map (lines ++ ·) ∧
      asked (first ++ second) = asked first ++ asked second := by
  induction first generalizing lines with
  | nil =>
    cases h
    refine ⟨?_, rfl⟩
    rw [List.nil_append]
    cases outcome second <;> rfl
  | cons step first ih =>
    cases step with
    | failed path reason => cases h
    | found path =>
      obtain ⟨houtcome, hasked⟩ := ih h
      exact ⟨houtcome, congrArg (path :: ·) hasked⟩
    | line text =>
      obtain ⟨others, hrest, rfl⟩ := map_eq_ok.mp h
      obtain ⟨houtcome, hasked⟩ := ih hrest
      refine ⟨?_, hasked⟩
      rw [List.cons_append, outcome, houtcome]
      cases outcome second <;> rfl

theorem complete_nil : Complete [] :=
  fun _ _ => List.not_mem_nil

theorem Complete.tail {step : Step} {steps : List Step} (h : Complete (step :: steps)) :
    Complete steps :=
  fun path reason hmem => h path reason (List.mem_cons_of_mem _ hmem)

/-- Either nothing fails, or there is a first failure. -/
theorem complete_or_stopped (steps : List Step) :
    Complete steps ∨ ∃ before path reason after,
      steps = before ++ .failed path reason :: after ∧ Complete before := by
  induction steps with
  | nil => exact Or.inl complete_nil
  | cons step steps ih =>
    by_cases hfailed : ∃ path reason, step = .failed path reason
    · obtain ⟨path, reason, rfl⟩ := hfailed
      exact Or.inr ⟨[], path, reason, steps, rfl, complete_nil⟩
    · have hcons : ∀ others, Complete others → Complete (step :: others) := by
        intro others hothers path reason hmem
        rcases List.mem_cons.mp hmem with heq | hmem
        · exact hfailed ⟨path, reason, heq.symm⟩
        · exact hothers path reason hmem
      rcases ih with hsteps | ⟨before, path, reason, after, rfl, hbefore⟩
      · exact Or.inl (hcons steps hsteps)
      · exact Or.inr ⟨step :: before, path, reason, after, rfl, hcons before hbefore⟩

theorem Complete.outcome_asked {steps : List Step} (h : Complete steps) :
    outcome steps = .ok (steps.filterMap line?) ∧ asked steps = steps.filterMap path? := by
  induction steps with
  | nil => exact ⟨rfl, rfl⟩
  | cons step steps ih =>
    obtain ⟨houtcome, hasked⟩ := ih h.tail
    cases step with
    | failed path reason => exact absurd List.mem_cons_self (h path reason)
    | found path => exact ⟨houtcome, congrArg (path :: ·) hasked⟩
    | line text =>
      refine ⟨?_, hasked⟩
      rw [outcome, houtcome]
      rfl

theorem course (steps : List Step) :
    Course steps
      ((outcome steps).map fun lines => String.ofList (unlines lines), asked steps) := by
  rcases complete_or_stopped steps with hcomplete | ⟨before, path, reason, after, rfl, hbefore⟩
  · obtain ⟨houtcome, hasked⟩ := hcomplete.outcome_asked
    rw [houtcome, hasked]
    exact .done hcomplete
  · obtain ⟨houtcome, hasked⟩ := hbefore.outcome_asked
    have hwhole := append_of_ok houtcome (.failed path reason :: after)
    rw [hwhole.1, hwhole.2, hasked]
    exact .stopped rfl hbefore

end Step

open Step

section

variable {library : Library}

/-- Lines come to the lines of their tree, if files come to the lines of theirs. -/
theorem outcome_lineSteps {files : String → List Step} {limit : Nat}
    (hfiles : ∀ path lines, outcome (files path) = .ok lines ↔
      ∃ content inside, library path = .ok content ∧
        Unfolds library (Text.lines content.toList) inside ∧ inside.depth + 1 ≤ limit ∧
        lines = inside.lines)
    {others lines : List (List Char)} :
    outcome (others.flatMap (lineSteps files)) = .ok lines ↔
      ∃ tree, Unfolds library others tree ∧ tree.depth ≤ limit ∧ lines = tree.lines := by
  induction others generalizing lines with
  | nil =>
    constructor
    · intro h
      cases h
      exact ⟨.done, .done, Nat.zero_le _, rfl⟩
    · rintro ⟨tree, htree, _, rfl⟩
      cases htree
      rfl
  | cons line others ih =>
    rw [List.flatMap_cons, lineSteps]
    cases names : includeTarget? line with
    | none =>
      rw [List.singleton_append, outcome, map_eq_ok]
      constructor
      · rintro ⟨rest, hrest, rfl⟩
        obtain ⟨tree, htree, hdepth, rfl⟩ := ih.mp hrest
        exact ⟨.line line tree, .line names htree, hdepth, rfl⟩
      · rintro ⟨tree, htree, hdepth, rfl⟩
        cases htree with
        | line _ hrest => exact ⟨_, ih.mpr ⟨_, hrest, hdepth, rfl⟩, rfl⟩
        | file names' => cases names.symm.trans names'
    | some path =>
      constructor
      · intro h
        cases hfile : outcome (files path) with
        | error reason =>
          rw [(append_of_error hfile _).1] at h
          cases h
        | ok inner =>
          rw [(append_of_ok hfile _).1, map_eq_ok] at h
          obtain ⟨rest, hrest, rfl⟩ := h
          obtain ⟨content, inside, hfound, hwithin, hlt, rfl⟩ := (hfiles path inner).mp hfile
          obtain ⟨tree, htree, hdepth, rfl⟩ := ih.mp hrest
          exact ⟨.file path inside tree, .file names hfound hwithin htree,
            Nat.max_le.mpr ⟨hlt, hdepth⟩, rfl⟩
      · rintro ⟨tree, htree, hdepth, rfl⟩
        cases htree with
        | line plain => cases names.symm.trans plain
        | @file _ _ path' content inside rest names' hfound hwithin hrest =>
          cases names.symm.trans names'
          obtain ⟨hlt, hle⟩ := Nat.max_le.mp hdepth
          have hfile : outcome (files path) = .ok inside.lines :=
            (hfiles path _).mpr ⟨content, inside, hfound, hwithin, hlt, rfl⟩
          rw [(append_of_ok hfile _).1, map_eq_ok]
          exact ⟨rest.lines, ih.mpr ⟨rest, hrest, hle, rfl⟩, rfl⟩

/-- The steps of a file succeed just where its include tree exists and is not too deep. -/
theorem outcome_fileSteps {limit levels : Nat} {path : String} {lines : List (List Char)} :
    outcome (fileSteps limit library levels path) = .ok lines ↔
      ∃ content inside, library path = .ok content ∧
        Unfolds library (Text.lines content.toList) inside ∧ inside.depth + 1 ≤ levels ∧
        lines = inside.lines := by
  induction levels generalizing path lines with
  | zero =>
    constructor
    · intro h
      rw [fileSteps] at h
      cases hfound : library path with
      | error reason =>
        rw [hfound] at h
        cases h
      | ok content =>
        rw [hfound] at h
        cases h
    · rintro ⟨content, inside, _, _, hlt, _⟩
      omega
  | succ levels ih =>
    rw [fileSteps]
    cases hfound : library path with
    | error reason =>
      constructor
      · intro h
        cases h
      · rintro ⟨content, inside, hcontent, _⟩
        cases hcontent
    | ok content =>
      rw [outcome, outcome_lineSteps fun path lines => ih]
      constructor
      · rintro ⟨tree, htree, hdepth, rfl⟩
        exact ⟨content, tree, rfl, htree, by omega, rfl⟩
      · rintro ⟨content', inside, hcontent, hwithin, hlt, rfl⟩
        cases hcontent
        exact ⟨inside, hwithin, by omega, rfl⟩

end

section

variable {m : Type → Type} [Monad m] [LawfulMonad m] {library : Library} {tick : String → m Unit}

/-- Lines are expanded by asking for the files of their steps and then answering, if that holds of
the files they name. -/
theorem expandLines_eq {nested : String → m (Except String (List (List Char)))}
    {files : String → List Step}
    (hnested : ∀ path, nested path = (do
      (asked (files path)).forM tick
      return outcome (files path)))
    (others : List (List Char)) :
    expandLines nested others = (do
      (asked (others.flatMap (lineSteps files))).forM tick
      return outcome (others.flatMap (lineSteps files))) := by
  induction others with
  | nil => simp [expandLines, asked, outcome]
  | cons line others ih =>
    rw [expandLines, List.flatMap_cons, lineSteps]
    cases includeTarget? line with
    | none => simp [ih, asked, outcome]
    | some path =>
      dsimp only
      rw [hnested path]
      cases hfile : outcome (files path) with
      | error reason =>
        obtain ⟨houtcome, hasked⟩ := append_of_error hfile (others.flatMap (lineSteps files))
        simp [houtcome, hasked]
      | ok inner =>
        obtain ⟨houtcome, hasked⟩ := append_of_ok hfile (others.flatMap (lineSteps files))
        simp [houtcome, hasked, ih]

variable (library tick)

/-- Expanding a source takes its steps, one file asked for after another. -/
theorem expand_eq (limit levels : Nat) (source : String) :
    expand limit (fun path => do tick path; return library path) levels source = (do
      let met := (Text.lines source.toList).flatMap (lineSteps (fileSteps limit library levels))
      (asked met).forM tick
      return outcome met) := by
  induction levels generalizing source with
  | zero =>
    rw [expand]
    refine expandLines_eq (fun path => ?_) _
    rw [fileSteps]
    cases library path <;> simp [asked, outcome]
  | succ levels ih =>
    rw [expand]
    refine expandLines_eq (fun path => ?_) _
    rw [fileSteps]
    cases library path with
    | error reason => simp [asked, outcome]
    | ok content =>
      simp only [bind_assoc, pure_bind, ih, asked, outcome, List.forM_eq_forM, List.forM_cons]

/-- Expansion asks for the files of its steps, in order, and then answers. -/
theorem expandIncludes_eq (limit : Nat) (source : String) :
    expandIncludes limit (fun path => do tick path; return library path) source = (do
      (asked (steps limit library source)).forM tick
      return (outcome (steps limit library source)).map fun lines =>
        String.ofList (unlines lines)) := by
  simp only [expandIncludes, expand_eq, steps, bind_assoc, pure_bind]

end

/-- The same include files, with a record of what is asked for, the latest at the end. -/
def Library.recorded {κ : Type} (note : String → κ) (library : Library) :
    IncludeResolver (StateM (List κ)) := fun path => do
  modify (· ++ [note path])
  return library path

/-- What comes of a source whose include files are a plain function. -/
def expansion (limit : Nat) (library : Library) (source : String) : Except String String :=
  (expandIncludes limit (fun path => pure (library path)) source : Id _).run

/-- What comes of a source, and the files that were asked for. -/
def expansionRecord (limit : Nat) (library : Library) (source : String) :
    Except String String × List String :=
  ((expandIncludes limit (library.recorded id) source).run []).run

theorem run_forM_modify {κ : Type} (note : String → κ) (paths : List String) (known : List κ) :
    ((paths.forM fun path => modify (· ++ [note path]) : StateM (List κ) Unit).run known).run =
      ((), known ++ paths.map note) := by
  induction paths generalizing known with
  | nil => simp
  | cons path paths ih =>
    have hstep := ih (known ++ [note path])
    rw [List.append_assoc] at hstep
    exact hstep

section

variable (limit : Nat) (library : Library) (source : String)

theorem expansion_eq :
    expansion limit library source =
      (outcome (steps limit library source)).map fun lines => String.ofList (unlines lines) := by
  have hrun := expandIncludes_eq (m := Id) library (fun _ => pure ()) limit source
  simp only [pure_bind] at hrun
  rw [expansion, hrun]
  simp

/-- A recorded expansion comes to the same, and notes the files of its steps. -/
theorem run_expandIncludes_recorded {κ : Type} (note : String → κ) (known : List κ) :
    ((expandIncludes limit (library.recorded note) source).run known).run =
      (expansion limit library source,
        known ++ (asked (steps limit library source)).map note) := by
  have hrun : expandIncludes limit (library.recorded note) source = _ :=
    expandIncludes_eq library (fun path => modify (· ++ [note path])) limit source
  rw [hrun, expansion_eq, StateT.run_bind, Id.run_bind, run_forM_modify]
  rfl

theorem expansionRecord_eq :
    expansionRecord limit library source =
      (expansion limit library source, asked (steps limit library source)) := by
  rw [expansionRecord, run_expandIncludes_recorded, List.nil_append, List.map_id]

/-- Expansion gives a text exactly when it is that of a tree within the limit. -/
theorem expansion_eq_ok_iff {limit : Nat} {library : Library} {source out : String} :
    expansion limit library source = .ok out ↔
      ∃ tree, Unfolds library (Text.lines source.toList) tree ∧ tree.depth ≤ limit ∧
        out = tree.text := by
  rw [expansion_eq, map_eq_ok]
  constructor
  · rintro ⟨lines, hlines, rfl⟩
    obtain ⟨tree, htree, hdepth, rfl⟩ :=
      (outcome_lineSteps fun path lines => outcome_fileSteps).mp hlines
    exact ⟨tree, htree, hdepth, rfl⟩
  · rintro ⟨tree, htree, hdepth, rfl⟩
    exact ⟨tree.lines,
      (outcome_lineSteps fun path lines => outcome_fileSteps).mpr ⟨tree, htree, hdepth, rfl⟩, rfl⟩

end

/-- Expansion flattens the include tree. It gives a text exactly when every file of the tree is
there and none is nested deeper than the limit, and the text is then that of the tree; so a higher
limit changes nothing, and a cycle that can be reached fails under every limit. Files are asked for
in document order up to the first that fails, whose failure is the answer. -/
theorem expansion_flattens_tree (limit : Nat) (library : Library) (source : String) :
    (expansionRecord limit library source).1 = expansion limit library source ∧
    ((∃ out, expansion limit library source = .ok out) ↔
      ∀ depth text, IncludedAt library source depth text →
        depth ≤ limit ∧ ∀ path ∈ includePaths text, ∃ content, library path = .ok content) ∧
    (∀ out, expansion limit library source = .ok out ↔
      ∃ tree, Unfolds library (Text.lines source.toList) tree ∧ tree.depth ≤ limit ∧
        out = tree.text) ∧
    (∀ out higher, limit ≤ higher → expansion limit library source = .ok out →
      expansion higher library source = .ok out) ∧
    (∀ text, Relation.ReflTransGen (Includes library) source text →
      Relation.TransGen (Includes library) text text →
      ∃ reason, expansion limit library source = .error reason) ∧
    Course (steps limit library source) (expansionRecord limit library source) := by
  rw [expansionRecord_eq]
  refine ⟨rfl, ?_, fun out => expansion_eq_ok_iff, ?_, ?_, ?_⟩
  · rw [← exists_unfolds_iff]
    constructor
    · rintro ⟨out, hout⟩
      obtain ⟨tree, htree, hdepth, _⟩ := expansion_eq_ok_iff.mp hout
      exact ⟨tree, htree, hdepth⟩
    · rintro ⟨tree, htree, hdepth⟩
      exact ⟨tree.text, expansion_eq_ok_iff.mpr ⟨tree, htree, hdepth, rfl⟩⟩
  · intro out higher hle hout
    obtain ⟨tree, htree, hdepth, rfl⟩ := expansion_eq_ok_iff.mp hout
    exact expansion_eq_ok_iff.mpr ⟨tree, htree, Nat.le_trans hdepth hle, rfl⟩
  · intro text hreach hcycle
    cases hout : expansion limit library source with
    | error reason => exact ⟨reason, rfl⟩
    | ok out =>
      obtain ⟨tree, htree, _, _⟩ := expansion_eq_ok_iff.mp hout
      rcases Relation.reflTransGen_iff_eq_or_transGen.mp hreach with rfl | hreach
      · exact absurd htree (not_unfolds_of_cycle hcycle)
      · obtain ⟨inside, hinside, _⟩ := htree.reachable hreach
        exact absurd hinside (not_unfolds_of_cycle hcycle)
  · rw [expansion_eq]
    exact Step.course (steps limit library source)

/-- Two files that include a third, and one that includes itself. -/
def sampleLibrary : Library
  | "left" => .ok "#include \"shared\"\nfloat l;"
  | "right" => .ok "  # include <shared>\r\nfloat r;\r\n"
  | "shared" => .ok "float s;"
  | "loop" => .ok "float x;\n#include \"loop\"\n"
  | path => .error s!"no file {path}"

theorem expansion_flattens_tree_sample :
    (∀ limit, 2 ≤ limit →
      expansion limit sampleLibrary "#include \"left\"\n#include \"right\"\nvoid main() \x7b\x7d" =
        .ok "float s;\nfloat l;\nfloat s;\nfloat r;\nvoid main() \x7b\x7d\n") ∧
    (∀ limit, ∃ reason, expansion limit sampleLibrary "#include <loop>" = .error reason) ∧
    expansionRecord 1 sampleLibrary "#include \"left\"\n#include \"right\"" =
      (.error "#include nesting deeper than 1", ["left", "shared"]) := by
  refine ⟨?_, ?_, by decide +kernel⟩
  · intro limit hlimit
    exact (expansion_flattens_tree 2 sampleLibrary _).2.2.2.1 _ limit hlimit (by decide +kernel)
  · intro limit
    have hloop : Includes sampleLibrary "float x;\n#include \"loop\"\n"
        "float x;\n#include \"loop\"\n" := ⟨"loop", by decide +kernel, rfl⟩
    have hreach : Includes sampleLibrary "#include <loop>" "float x;\n#include \"loop\"\n" :=
      ⟨"loop", by decide +kernel, rfl⟩
    exact (expansion_flattens_tree limit sampleLibrary _).2.2.2.2.1 _ (.single hreach)
      (.single hloop)

end Kfx.Glsl
