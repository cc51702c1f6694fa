import Kfx.Stage.Request
import Kfx.Text.Lines

/-!
# Include lines of shader code

An include line is replaced by the lines of the file it names, up to a limit of files inside files.
-/
namespace Kfx.Glsl

def afterStart? (start cs : List Char) : Option (List Char) :=
  if start.isPrefixOf cs then some (cs.drop start.length) else none

/-- The text between two marks that stand at the ends. -/
def between? (opening closing : Char) (cs : List Char) : Option (List Char) :=
  match cs with
  | c :: r =>
    if c = opening ∧ r.getLast? = some closing then some r.dropLast else none
  | [] => none

/-- The file an include line names, in quotes or in angle brackets. -/
def includeTarget? (line : List Char) : Option String := do
  let r ← afterStart? ['#'] (Text.dropBlanks line)
  let r ← afterStart? "include".toList (Text.dropBlanks r)
  let r := Text.trim r
  let name ← (between? '"' '"' r).orElse fun _ => between? '<' '>' r
  return String.ofList name

variable {m : Type → Type} [Monad m]

/-- The lines of a text with every include line replaced by what `nested` gives for its file. The
first failure ends the work. -/
def expandLines (nested : String → m (Except String (List (List Char)))) :
    List (List Char) → m (Except String (List (List Char)))
  | [] => return .ok []
  | line :: rest => do
    match includeTarget? line with
    | none => return (← expandLines nested rest).map (line :: ·)
    | some path =>
      match ← nested path with
      | .error e => return .error e
      | .ok inner => return (← expandLines nested rest).map (inner ++ ·)

/-- The lines of a text in which files may be included `levels` deep. A file that is too deep is
still looked up. -/
def expand (limit : Nat) (resolve : IncludeResolver m) :
    (levels : Nat) → String → m (Except String (List (List Char)))
  | 0, text => expandLines (fun path => do
      match ← resolve path with
      | .error e => return .error e
      | .ok _ => return .error s!"#include nesting deeper than {limit}") (Text.lines text.toList)
  | levels + 1, text => expandLines (fun path => do
      match ← resolve path with
      | .error e => return .error e
      | .ok inner => expand limit resolve levels inner) (Text.lines text.toList)

/-- Lines put together again, each with a line feed. -/
def unlines (lines : List (List Char)) : List Char :=
  lines.flatMap (· ++ ['\n'])

def expandIncludes (limit : Nat) (resolve : IncludeResolver m) (text : String) :
    m (Except String String) := do
  return (← expand limit resolve limit text).map fun lines => String.ofList (unlines lines)

end Kfx.Glsl
