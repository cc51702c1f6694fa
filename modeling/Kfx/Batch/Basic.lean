import Kfx.Batch.Source

/-!
# Batches of sources

A batch: one file, or the sources right inside a directory, each on its own. A source that fails
does not stop the others.
-/
namespace Kfx

inductive BatchError
  | notThere (path : String)
  | unlisted (path : String) (fault : FileFault)
  | noSources (extension path : String)
  deriving DecidableEq

def BatchError.chain : BatchError → List String
  | notThere path => [s!"{path} is neither a file nor a directory"]
  | unlisted path fault => [s!"failed to list {path}", fault.message]
  | noSources extension path => [s!"no .{extension} files found in {path}"]

def BatchError.message (e : BatchError) : String :=
  ": ".intercalate e.chain

/-- What became of the sources, each list in the order of the sources. -/
structure Report where
  /-- Artifacts. -/
  written : List String := []
  /-- Sources. -/
  checked : List String := []
  /-- Sources and why they failed. -/
  failed : List (String × String) := []
  deriving DecidableEq

def Report.isSuccess (r : Report) : Bool := r.failed.isEmpty

/-- What a worker hands back: the number of a source in the batch, and what became of it. -/
structure Delivery where
  index : Nat
  source : String
  outcome : Except SourceError Outcome

def Report.add (r : Report) (d : Delivery) : Report :=
  match d.outcome with
  | .ok (.written artifact) => { r with written := r.written ++ [artifact] }
  | .ok .checked => { r with checked := r.checked ++ [d.source] }
  | .error e => { r with failed := r.failed ++ [(d.source, e.message)] }

/-- A failure is also a diagnostic. -/
def Delivery.log (d : Delivery) : Log :=
  match d.outcome with
  | .ok _ => []
  | .error e => [⟨.error, s!"{d.source}: {e.message}"⟩]

/-- Deliveries come in any order; they are taken in the order of their sources. -/
def inOrder (ds : List Delivery) : List Delivery :=
  ds.mergeSort fun a b => decide (a.index ≤ b.index)

def Report.ofDeliveries (ds : List Delivery) : Report :=
  (inOrder ds).foldl Report.add {}

section

variable {m : Type → Type} [Monad m]

/-- The names in a directory that are files with the wanted extension. -/
def sourceNames (files : Files m) (extension path : String) :
    List String → m (List String)
  | [] => return []
  | name :: names => do
    let rest ← sourceNames files extension path names
    let full := Path.join path name
    if (← files.isFile full) && Path.extension? full == some extension then
      return name :: rest
    return rest

/-- The sources a path stands for: the file itself, or the sources right inside the directory in the
order of their names. -/
def collectSources (files : Files m) (path extension : String) :
    m (Except BatchError (List String)) := do
  if ← files.isFile path then return .ok [path]
  unless ← files.isDirectory path do return .error (.notThere path)
  match ← files.list path with
  | .error fault => return .error (.unlisted path fault)
  | .ok names =>
    let names ← sourceNames files extension path names
    let names := names.mergeSort fun a b => decide (a ≤ b)
    return .ok (names.map (Path.join path))

/-- Works through numbered sources. -/
def deliverAll (files : Files m) (compiler : Compiler m) (s : Settings) :
    List (String × Nat) → m (Log × List Delivery)
  | [] => return ([], [])
  | (source, index) :: rest => do
    let x ← (compileOne files compiler s source : m (Logged SourceError Outcome))
    let (log, others) ← deliverAll files compiler s rest
    return (x.log ++ log, ⟨index, source, x.result⟩ :: others)

/-- A whole batch, on a machine that can run `parallelism` workers at once. -/
def runBatch (files : Files m) (compiler : Compiler m) (s : Settings) (parallelism : Nat)
    (path : String) : m (Logged BatchError Report) := do
  match ← collectSources files path s.sourceExtension with
  | .error e => return .fail e
  | .ok [] => return .fail (.noSources s.sourceExtension path)
  | .ok sources =>
    let workers := max 1 (min (s.workerCount parallelism) sources.length)
    let start := s!"compiling {sources.length} effect(s) on {workers} worker(s)"
    let (log, deliveries) ← deliverAll files compiler s sources.zipIdx
    let failures := (inOrder deliveries).flatMap Delivery.log
    return ⟨⟨.info, start⟩ :: log ++ failures, .ok (Report.ofDeliveries deliveries)⟩

end

end Kfx
