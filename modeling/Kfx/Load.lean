import Kfx.Grammar.Source
import Kfx.Resolution
import Kfx.Path

/-! Loading an effect: a source is read and its references are resolved. -/
namespace Kfx

inductive LoadError
  | parse (e : ParseError)
  | resolve (e : ResolveError)
  deriving DecidableEq

def LoadError.message : LoadError → String
  | parse e => e.message
  | resolve e => e.message

def Resolved.toLogged {α : Type} (x : Resolved α) : Logged ResolveError α :=
  match x.error with
  | some e => ⟨x.log, .error e⟩
  | none => ⟨x.log, .ok x.value⟩

/-- An effect remembers where it came from, and takes its name from there if it has no other. -/
def Effect.locate (e : Effect) (path : String) : Effect :=
  { e with
    sourcePath := path
    name := if e.name = "" then (Path.stem? path).getD "" else e.name }

def Effect.load (source path : String) : Logged LoadError Effect :=
  ((Effect.parse source).mapError .parse).andThen fun e =>
    ((e.locate path).resolve.toLogged).mapError .resolve

end Kfx
