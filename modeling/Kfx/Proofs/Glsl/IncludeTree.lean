import Kfx.Glsl.Include
import Mathlib.Logic.Relation

/-!
# The tree of include files

Include lines unfold into a tree: a file stands at the place of the line that names it, with the
files its own lines name inside. A source has a finite tree when every file in it is there and none
includes itself, directly or through others.
-/
namespace Kfx.Glsl

/-- Include files as a plain function. -/
abbrev Library := String → Except String String

/-- The tree of some lines: lines that stay, and files with the tree of their own lines inside. -/
inductive IncludeTree
  | done
  | line (text : List Char) (rest : IncludeTree)
  | file (path : String) (inside rest : IncludeTree)
  deriving DecidableEq

namespace IncludeTree

/-- How deep files are nested; the source itself is at depth zero. -/
def depth : IncludeTree → Nat
  | done => 0
  | line _ rest => rest.depth
  | file _ inside rest => Nat.max (inside.depth + 1) rest.depth

/-- The lines that name no file, in document order. -/
def lines : IncludeTree → List (List Char)
  | done => []
  | line text rest => text :: rest.lines
  | file _ inside rest => inside.lines ++ rest.lines

def text (tree : IncludeTree) : String :=
  String.ofList (unlines tree.lines)

end IncludeTree

/-- The tree unfolds from the lines, and every file in it is there. -/
inductive Unfolds (library : Library) : List (List Char) → IncludeTree → Prop
  | done : Unfolds library [] .done
  | line {text : List Char} {others : List (List Char)} {rest : IncludeTree}
    (plain : includeTarget? text = none) (unfolds : Unfolds library others rest) :
    Unfolds library (text :: others) (.line text rest)
  | file {text : List Char} {others : List (List Char)} {path content : String}
    {inside rest : IncludeTree} (names : includeTarget? text = some path)
    (found : library path = .ok content)
    (within : Unfolds library (Text.lines content.toList) inside)
    (unfolds : Unfolds library others rest) :
    Unfolds library (text :: others) (.file path inside rest)

def includePaths (text : String) : List String :=
  (Text.lines text.toList).filterMap includeTarget?

/-- One text has the other as a file. -/
def Includes (library : Library) (outer inner : String) : Prop :=
  ∃ path ∈ includePaths outer, library path = .ok inner

/-- The texts at a depth of the tree of a source, be the tree finite or not. -/
inductive IncludedAt (library : Library) (source : String) : Nat → String → Prop
  | source : IncludedAt library source 0 source
  | file {depth : Nat} {outer inner : String} (above : IncludedAt library source depth outer)
    (includes : Includes library outer inner) : IncludedAt library source (depth + 1) inner

section

variable {library : Library} {others : List (List Char)} {tree : IncludeTree}

/-- A file that a line of an unfolded text names is in the library, and its tree is less deep. -/
theorem Unfolds.found (h : Unfolds library others tree) {line : List Char} (hline : line ∈ others)
    {path : String} (names : includeTarget? line = some path) :
    ∃ content inside, library path = .ok content ∧
      Unfolds library (Text.lines content.toList) inside ∧ inside.depth + 1 ≤ tree.depth := by
  induction h with
  | done => cases hline
  | line plain _ ih =>
    rcases List.mem_cons.mp hline with rfl | hline
    · rw [plain] at names
      cases names
    · exact ih hline
  | @file _ _ path' content inside rest names' found within _ _ ih =>
    rcases List.mem_cons.mp hline with rfl | hline
    · have hpath : path' = path := Option.some.inj (names'.symm.trans names)
      subst hpath
      exact ⟨content, inside, found, within, Nat.le_max_left _ _⟩
    · obtain ⟨content', inside', hfound, hwithin, hdepth⟩ := ih hline
      exact ⟨content', inside', hfound, hwithin, Nat.le_trans hdepth (Nat.le_max_right _ _)⟩

theorem mem_includePaths {text path : String} :
    path ∈ includePaths text ↔ ∃ line ∈ Text.lines text.toList, includeTarget? line = some path :=
  List.mem_filterMap

/-- The tree of an included text is a part of the tree around it. -/
theorem Unfolds.inside {outer inner : String}
    (h : Unfolds library (Text.lines outer.toList) tree) (includes : Includes library outer inner) :
    ∃ inside, Unfolds library (Text.lines inner.toList) inside ∧
      inside.depth + 1 ≤ tree.depth := by
  obtain ⟨path, hpath, hinner⟩ := includes
  obtain ⟨line, hline, names⟩ := mem_includePaths.mp hpath
  obtain ⟨content, inside, hfound, hwithin, hdepth⟩ := h.found hline names
  have hcontent : content = inner := Except.ok.inj (hfound.symm.trans hinner)
  subst hcontent
  exact ⟨inside, hwithin, hdepth⟩

theorem Unfolds.includedAt {source text : String} {depth : Nat}
    (h : Unfolds library (Text.lines source.toList) tree)
    (included : IncludedAt library source depth text) :
    ∃ inside, Unfolds library (Text.lines text.toList) inside ∧
      depth + inside.depth ≤ tree.depth := by
  induction included with
  | source => exact ⟨tree, h, by omega⟩
  | file _ includes ih =>
    obtain ⟨around, haround, hle⟩ := ih
    obtain ⟨inside, hinside, hlt⟩ := haround.inside includes
    exact ⟨inside, hinside, by omega⟩

theorem Unfolds.reachable {outer inner : String}
    (h : Unfolds library (Text.lines outer.toList) tree)
    (reaches : Relation.TransGen (Includes library) outer inner) :
    ∃ inside, Unfolds library (Text.lines inner.toList) inside ∧
      inside.depth + 1 ≤ tree.depth := by
  induction reaches with
  | single includes => exact h.inside includes
  | tail _ includes ih =>
    obtain ⟨around, haround, hle⟩ := ih
    obtain ⟨inside, hinside, hlt⟩ := haround.inside includes
    exact ⟨inside, hinside, by omega⟩

/-- What includes itself, directly or not, has no finite tree. -/
theorem not_unfolds_of_cycle {text : String}
    (cycle : Relation.TransGen (Includes library) text text) :
    ¬ Unfolds library (Text.lines text.toList) tree := by
  intro h
  induction hdepth : tree.depth using Nat.strongRecOn generalizing tree with
  | ind depth ih =>
    obtain ⟨inside, hinside, hlt⟩ := h.reachable cycle
    exact ih inside.depth (by omega) hinside rfl

/-- Lines whose files all have shallow trees have a tree themselves. -/
theorem exists_unfolds {limit : Nat}
    (files : ∀ line ∈ others, ∀ path, includeTarget? line = some path →
      ∃ content inside, library path = .ok content ∧
        Unfolds library (Text.lines content.toList) inside ∧ inside.depth + 1 ≤ limit) :
    ∃ tree, Unfolds library others tree ∧ tree.depth ≤ limit := by
  induction others with
  | nil => exact ⟨.done, .done, Nat.zero_le _⟩
  | cons line others ih =>
    obtain ⟨hline, hothers⟩ := List.forall_mem_cons.mp files
    obtain ⟨rest, hrest, hdepth⟩ := ih hothers
    cases names : includeTarget? line with
    | none => exact ⟨.line line rest, .line names hrest, hdepth⟩
    | some path =>
      obtain ⟨content, inside, hfound, hwithin, hlt⟩ := hline path names
      exact ⟨.file path inside rest, .file names hfound hwithin hrest, Nat.max_le.mpr ⟨hlt, hdepth⟩⟩

theorem IncludedAt.beneath {source outer text : String} {depth : Nat}
    (includes : Includes library source outer) (included : IncludedAt library outer depth text) :
    IncludedAt library source (depth + 1) text := by
  induction included with
  | source => exact .file .source includes
  | file _ includes' ih => exact .file ih includes'

/-- A source has a tree within the limit exactly when its texts are within the limit and every file
they name is there. -/
theorem exists_unfolds_iff {limit : Nat} {source : String} :
    (∃ tree, Unfolds library (Text.lines source.toList) tree ∧ tree.depth ≤ limit) ↔
      ∀ depth text, IncludedAt library source depth text →
        depth ≤ limit ∧ ∀ path ∈ includePaths text, ∃ content, library path = .ok content := by
  constructor
  · rintro ⟨tree, htree, hdepth⟩ depth text included
    obtain ⟨inside, hinside, hle⟩ := htree.includedAt included
    refine ⟨by omega, fun path hpath => ?_⟩
    obtain ⟨line, hline, names⟩ := mem_includePaths.mp hpath
    obtain ⟨content, _, hfound, _, _⟩ := hinside.found hline names
    exact ⟨content, hfound⟩
  · intro hall
    induction limit generalizing source with
    | zero =>
      refine exists_unfolds fun line hline path names => ?_
      have hpath : path ∈ includePaths source := mem_includePaths.mpr ⟨line, hline, names⟩
      obtain ⟨content, hfound⟩ := (hall 0 source .source).2 path hpath
      have hdeep := (hall 1 content (.file .source ⟨path, hpath, hfound⟩)).1
      omega
    | succ limit ih =>
      refine exists_unfolds fun line hline path names => ?_
      have hpath : path ∈ includePaths source := mem_includePaths.mpr ⟨line, hline, names⟩
      obtain ⟨content, hfound⟩ := (hall 0 source .source).2 path hpath
      have hincludes : Includes library source content := ⟨path, hpath, hfound⟩
      have hinside : ∀ depth text, IncludedAt library content depth text → depth ≤ limit ∧
          ∀ path ∈ includePaths text, ∃ content, library path = .ok content := by
        intro depth text included
        obtain ⟨hle, hfiles⟩ := hall (depth + 1) text (.beneath hincludes included)
        exact ⟨by omega, hfiles⟩
      obtain ⟨inside, hunfolds, hdepth⟩ := ih hinside
      exact ⟨content, inside, hfound, hunfolds, by omega⟩

end

end Kfx.Glsl
