import Kfx.Batch.Basic
import Kfx.Glsl.Adapter
import Kfx.Settings.File
import Kfx.Text.Control

/-!
# The command line

Options may stand anywhere and the last one of a kind counts; there is one input. Options on the
line win over a settings file.
-/
namespace Kfx

inductive CountFault
  | empty | notDigit | tooLarge
  deriving DecidableEq

def CountFault.message : CountFault → String
  | empty => "cannot parse integer from empty string"
  | notDigit => "invalid digit found in string"
  | tooLarge => "number too large to fit in target type"

/-- Digits added to a number of at most sixty-four bits. -/
def countDigits : Nat → List Char → Except CountFault Nat
  | n, [] => .ok n
  | n, c :: cs =>
    if c.isDigit then
      let n' := 10 * n + (c.toNat - '0'.toNat)
      if n' < UInt64.size then countDigits n' cs else .error .tooLarge
    else .error .notDigit

/-- A count as an argument: digits, after a plus if one likes. -/
def parseCount (s : String) : Except CountFault Nat :=
  match s.toList with
  | [] => .error .empty
  | ['+'] => .error .notDigit
  | '+' :: cs => countDigits 0 cs
  | cs => countDigits 0 cs

def usage : String :=
  "usage: shaderfx <file.kfx|dir> [--output-dir <dir>] [--config <file.json>] [--jobs <n>] " ++
    "[--check] [--emit-spirv]"

structure Options where
  input : Option String := none
  outputDir : Option String := none
  config : Option String := none
  jobs : Option Nat := none
  check : Bool := false
  emitSpirv : Bool := false
  deriving DecidableEq

inductive RunError
  | missingValue (option : String)
  | badCount (value : String) (fault : CountFault)
  | unknownArgument (argument : String)
  | secondInput (argument : String)
  | noInput
  | unreadableSettings (path : String) (fault : FileFault)
  | badSettings (path : String) (e : Settings.Error)
  | batch (e : BatchError)
  | failedSources (count : Nat)
  deriving DecidableEq

/-- What happened and why, the outermost first. -/
def RunError.chain : RunError → List String
  | missingValue option => [s!"missing value for {option}"]
  | badCount value fault => [s!"invalid value for --jobs: {value} ({fault.message})"]
  | unknownArgument argument => [s!"unknown argument: {argument}\n{usage}"]
  | secondInput argument => [s!"more than one input given: {argument}\n{usage}"]
  | noInput => [usage]
  | unreadableSettings path fault => [s!"failed to read config at {path}", fault.message]
  | badSettings path e => [s!"failed to parse config json {path}", e.message]
  | batch e => e.chain
  | failedSources count => [s!"{count} effect(s) failed to compile"]

/-- The causes of a failure, numbered if there are several. -/
def causeLines : List String → List String
  | [cause] => ["    " ++ cause]
  | causes => causes.zipIdx.map fun (cause, i) => s!"    {i}: {cause}"

def failureText : List String → String
  | [] => "Error: "
  | [text] => "Error: " ++ text
  | text :: causes => "\n".intercalate (["Error: " ++ text, "", "Caused by:"] ++ causeLines causes)

namespace Options

/-- The options of an argument list, added to those already found. -/
def parseFrom (o : Options) : List String → Except RunError Options
  | [] => .ok o
  | "--check" :: rest => parseFrom { o with check := true } rest
  | "--emit-spirv" :: rest => parseFrom { o with emitSpirv := true } rest
  | "--outputdir" :: rest | "--output-dir" :: rest =>
    match rest with
    | [] => .error (.missingValue "--output-dir")
    | v :: rest => parseFrom { o with outputDir := some v } rest
  | "--config" :: rest =>
    match rest with
    | [] => .error (.missingValue "--config")
    | v :: rest => parseFrom { o with config := some v } rest
  | "--jobs" :: rest | "-j" :: rest =>
    match rest with
    | [] => .error (.missingValue "--jobs")
    | v :: rest =>
      match parseCount v with
      | .error fault => .error (.badCount v fault)
      | .ok n => parseFrom { o with jobs := some n } rest
  | argument :: rest =>
    if argument.toList.head? = some '-' then .error (.unknownArgument argument)
    else if o.input.isSome then .error (.secondInput argument)
    else parseFrom { o with input := some argument } rest

def parse (args : List String) : Except RunError Options :=
  parseFrom {} args

/-- Settings with what the line says put over them. A switch can only be put on. -/
def override (o : Options) (s : Settings) : Settings :=
  { s with
    outputDir := o.outputDir.or s.outputDir
    jobs := o.jobs.getD s.jobs
    checkOnly := s.checkOnly || o.check
    emitSpirv := s.emitSpirv || o.emitSpirv }

end Options

section

variable {m : Type → Type} [Monad m]

def Settings.load (files : Files m) (path : String) : m (Except RunError Settings) := do
  match ← files.readText path with
  | .error fault => return .error (.unreadableSettings path fault)
  | .ok text =>
    match Settings.parse text with
    | .error e => return .error (.badSettings path e)
    | .ok s => return .ok s

def Options.settings (files : Files m) (o : Options) : m (Except RunError Settings) := do
  match o.config with
  | none => return .ok (o.override {})
  | some path => return (← Settings.load files path).map o.override

def runCommand (files : Files m) (compiler : Compiler m) (parallelism : Nat)
    (args : List String) : LoggedT RunError m Unit := do
  let o ← .orFail id (pure (Options.parse args))
  match o.input with
  | none => .fail .noInput
  | some input =>
    let s ← .orFail id (o.settings files)
    let batch : LoggedT BatchError m Report := runBatch files compiler s parallelism input
    let report ← batch.mapError .batch
    let succeeded := report.written.length + report.checked.length
    .say .info s!"{succeeded} succeeded, {report.failed.length} failed"
    unless report.isSuccess do .fail (.failedSources report.failed.length)

def shownLog (log : Log) : Log :=
  log.filter fun e => e.level ≠ .debug

/-- A text with every line after the first set in under it. -/
def setIn (cs : List Char) : List Char :=
  cs.flatMap fun c => if c = '\n' then ['\n', ' ', ' ', ' ', ' '] else [c]

/-- What is printed of a diagnostic. Its text cannot steer the terminal. -/
def LogEntry.printed (e : LogEntry) : String :=
  String.ofList (Text.visible (setIn e.shown.toList ++ ['\n']))

end

end Kfx
