import Kfx.Settings.Basic
import Kfx.Settings.Json

/-!
# Settings files

Settings are an object with a key for each setting, or a list of the settings in order that may stop
early. What is left out keeps its default; keys that are no setting are passed over.
-/
namespace Kfx.Settings

/-- The settings in the order of the list form. -/
inductive Field
  | jobs | outputDir | sourceExtension | artifactExtension | stageTimeoutMs | entryPoint
  | emitSpirv | checkOnly
  deriving DecidableEq

namespace Field

def all : List Field :=
  [jobs, outputDir, sourceExtension, artifactExtension, stageTimeoutMs, entryPoint, emitSpirv,
   checkOnly]

def key : Field → String
  | jobs => "jobs"
  | outputDir => "outputDir"
  | sourceExtension => "sourceExtension"
  | artifactExtension => "artifactExtension"
  | stageTimeoutMs => "stageTimeoutMs"
  | entryPoint => "entryPoint"
  | emitSpirv => "emitSpirv"
  | checkOnly => "checkOnly"

def ofKey? (s : String) : Option Field :=
  all.find? fun f => f.key == s

open Reader in
def read (s : Settings) : Field → Reader Settings
  | jobs => return { s with jobs := ← count "usize" }
  | outputDir => return { s with outputDir := ← optionalString "path string" }
  | sourceExtension => return { s with sourceExtension := ← string "a string" }
  | artifactExtension => return { s with artifactExtension := ← string "a string" }
  | stageTimeoutMs => return { s with stageTimeoutMs := ← count "u64" }
  | entryPoint => return { s with entryPoint := ← string "a string" }
  | emitSpirv => return { s with emitSpirv := ← boolean }
  | checkOnly => return { s with checkOnly := ← boolean }

end Field

open Reader

/-- Whether a list has another element. -/
def hasElement (first : Bool) : Reader Bool := do
  match ← peekBehindBlanks with
  | none => failNext .endInList
  | some ']' => return false
  | some c =>
    if first then return true
    unless c = ',' do failNext .noListEnd
    advance
    match ← peekBehindBlanks with
    | some ']' => failNext .trailingComma
    | some _ => return true
    | none => failNext .endInValue

/-- The settings of a list, field after field. -/
def listFields (first : Bool) (s : Settings) : List Field → Reader Settings
  | [] => return s
  | f :: fs => do
    if ← hasElement first then
      let s ← f.read s
      listFields false s fs
    else return s

def listEnd : Reader Unit := do
  match ← peekBehindBlanks with
  | some ']' => advance
  | some ',' => do
    advance
    match ← peekBehindBlanks with
    | some ']' => failNext .trailingComma
    | _ => failNext .trailingText
  | some _ => failNext .trailingText
  | none => failNext .endInList

/-- Whether an object has another key. -/
def hasKey (first : Bool) : Reader Bool := do
  match ← peekBehindBlanks with
  | none => failNext .endInObject
  | some '\x7d' => return false
  | some c =>
    if first then
      if c = '"' then return true
      failNext .keyNotText
    unless c = ',' do failNext .noObjectEnd
    advance
    match ← peekBehindBlanks with
    | some '"' => return true
    | some '\x7d' => failNext .trailingComma
    | some _ => failNext .keyNotText
    | none => failNext .endInValue

/-- A key that stands twice is placed behind its second place, blanks and a closing brace
included. -/
def repeatedKey (f : Field) : Reader Settings := do
  match ← peekBehindBlanks with
  | some '\x7d' => advance
  | _ => pure ()
  fail (.repeatedKey f.key)

/-- The settings of an object, of which the fields `seen` are already there. -/
def objectFields : (bound : Nat) → (first : Bool) → (seen : List Field) → Settings → Reader Settings
  | 0, _, _, s => return s
  | bound + 1, first, seen, s => do
    if ← hasKey first then
      advance
      let field := Field.ofKey? (← text)
      match field with
      | some f =>
        if f ∈ seen then repeatedKey f
        else
          let s ← (do colon; f.read s)
          objectFields bound false (f :: seen) s
      | none =>
        colon
        ignoreValue
        objectFields bound false seen s
    else return s
where
  colon : Reader Unit := do
    match ← peekBehindBlanks with
    | some ':' => advance
    | some _ => failNext .noColon
    | none => failNext .endInObject

def file : Reader Settings := do
  let s ← (do
    match ← peekBehindBlanks with
    | none => failNext .endInValue
    | some '[' => do
      advance
      let s ← listFields true {} Field.all
      listEnd
      return s
    | some '\x7b' => do
      advance
      let s ← objectFields ((← remaining) + 1) true [] {}
      advance
      return s
    | some _ => wrongType "struct Config")
  match ← peekBehindBlanks with
  | some _ => failNext .trailingText
  | none => return s

def parse (text : String) : Except Error Settings :=
  (file.run (Cursor.ofString text)).map Prod.fst

end Kfx.Settings
