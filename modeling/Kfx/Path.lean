/-!
# Paths with slashes

Paths are texts. Empty parts and single dots inside a path say nothing, so a path has the components
that are left; a leading dot is kept.
-/
namespace Kfx.Path

/-- The text between slashes, all of it. -/
def pieces : List Char → List (List Char)
  | [] => [[]]
  | c :: cs =>
    if c = '/' then [] :: pieces cs
    else
      match pieces cs with
      | [] => [[c]]
      | p :: ps => (c :: p) :: ps

def isAbsolute (path : String) : Bool :=
  path.toList.head? = some '/'

/-- The parts of a path that say something, without the leading slash. -/
def components (path : String) : List String :=
  let parts := (pieces path.toList).map String.ofList
  let said := parts.filter fun p => p ≠ "" ∧ p ≠ "."
  if parts.head? = some "." then "." :: said else said

/-- The last component, if it is a name. -/
def fileName? (path : String) : Option String :=
  (components path).getLast?.filter fun p => p ≠ "." ∧ p ≠ ".."

/-- A file name cut at its last dot. A dot at the front does not count. -/
def splitName (name : String) : String × Option String :=
  let back := name.toList.reverse
  let after := back.takeWhile (· ≠ '.')
  match back.dropWhile (· ≠ '.') with
  | [] => (name, none)
  | [_] => (name, none)
  | _ :: before => (String.ofList before.reverse, some (String.ofList after.reverse))

def stem? (path : String) : Option String :=
  (fileName? path).map fun n => (splitName n).1

/-- What follows the last dot of the file name. -/
def extension? (path : String) : Option String :=
  (fileName? path).bind fun n => (splitName n).2

/-- Strips slashes and single dots off the end of a path written backwards. -/
def dropEmptyEnd : List Char → List Char
  | '/' :: cs => dropEmptyEnd cs
  | ['.'] => ['.']
  | '.' :: '/' :: cs => dropEmptyEnd cs
  | cs => cs

/-- The path without its last component, as far as it is written. A path without components has no
parent. -/
def parent? (path : String) : Option String :=
  if (components path).isEmpty then none
  else
    let back := dropEmptyEnd path.toList.reverse
    let front := back.dropWhile (· ≠ '/')
    let kept := dropEmptyEnd front
    -- Of an absolute path the first slash stays.
    let kept := if kept.isEmpty && isAbsolute path then ['/'] else kept
    some (String.ofList kept.reverse)

def join (base name : String) : String :=
  if isAbsolute name || base.isEmpty then name
  else if base.toList.getLast? = some '/' then base ++ name
  else base ++ "/" ++ name

/-- The directory a file is in; a file without one is where it is looked for. -/
def directoryOf (path : String) : String :=
  (parent? path).getD "."

end Kfx.Path
