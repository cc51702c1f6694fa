import Kfx.Grammar.RenderState
import Kfx.Token.Lexer

/-!
# Whole sources

A whole source: passes, code fragments, blocks of states and layouts, and `Shader` blocks that name
the effect and hold the same items again. Names used by passes stay names here.
-/
namespace Kfx.Grammar

open Kfx.Grammar.Parser

/-- A reference of a pass, refused if the pass has one of that sort. -/
def link (pass : Pass) (present : Option Link) (what : String) (pos : Pos) : Parser Link := do
  if present.isSome then fail (.duplicateLink what pass.name pos)
  let name ← expectName
  return { name }

def passEntry (pass : Pass) (word : String) (pos : Pos) : Parser Pass := do
  match word with
  | "VertexLayout" =>
    let l ← link pass pass.vertexLayout "a vertex layout" pos
    return { pass with vertexLayout := some l }
  | "Resources" =>
    let l ← link pass pass.resources "resources" pos
    return { pass with resources := some l }
  | "ConstantBuffer" =>
    let l ← link pass pass.constantBuffer "a constant buffer" pos
    return { pass with constantBuffer := some l }
  | "RenderState" =>
    let l ← link pass pass.renderState "a render state" pos
    return { pass with renderState := some l }
  | _ =>
    match StageKind.ofPassKeyword? word with
    | none => fail (.unknownWord "pass" word pos)
    | some kind =>
      let name ← expectName
      return { pass with stages := pass.stages ++ [{ kind, fragment := { name } }] }

def pass : Parser Pass := do
  let name ← expectName
  let _ ← expectSymbol .leftBrace
  bodyOfStatements "pass entry or `\x7d`" passEntry { name }

/-- A fragment keeps the text of its block as it is written. -/
def codeFragment : Parser CodeFragment := do
  let name ← expectName
  let block ← capture
  return ⟨name, block.text⟩

def nestingLimit : Nat := 64

/-- One item that starts with `word`. `nested` reads the items of a `Shader` block, given the place
of its opening brace. -/
def item (nested : Pos → Effect → Parser Effect) (e : Effect) (word : String) (pos : Pos) :
    Parser Effect := do
  match word with
  | "Shader" =>
    let name ← expectName
    if e.name ≠ "" ∧ e.name ≠ name then
      say .warn s!"effect `{e.name}` renamed to `{name}` by a second Shader block"
    let opening ← expectSymbol .leftBrace
    nested opening.pos { e with name }
  | "Layout" => layout e
  | "GLSL" =>
    let fragment ← codeFragment
    return { e with codeFragments := e.codeFragments ++ [fragment] }
  | "RenderState" =>
    let states ← renderStates e.renderStates
    return { e with renderStates := states }
  | "Pass" =>
    let p ← pass
    return { e with passes := e.passes ++ [p] }
  | _ =>
    say .debug s!"skipping top-level identifier `{word}` at {pos.text}"
    return e

/-- Items up to the token that ends them. A word that starts no item is passed over. -/
def itemsUpTo (last : Lexeme) (nested : Pos → Effect → Parser Effect) (e : Effect) :
    Parser Effect :=
  loop (fun e t =>
    if t.lexeme = last then done e
    else
      match t.lexeme with
      | .word word => do
        let e' ← item nested e word t.pos
        again e'
      | _ => mismatch s!"identifier or {last.kind.describe}" t) e

/-- The items of a `Shader` block in which `levels` more levels may be opened. -/
def blockItems : (levels : Nat) → Pos → Effect → Parser Effect
  | 0, opening, _ => fail (.tooDeep nestingLimit opening)
  | levels + 1, _, e => itemsUpTo (.symbol .rightBrace) (blockItems levels) e

def source : Parser Effect :=
  itemsUpTo .endOfInput (blockItems nestingLimit) {}

end Kfx.Grammar

namespace Kfx

/-- The effect a source text describes, its references not resolved. -/
def Effect.parse (text : String) : Logged ParseError Effect :=
  (Grammar.source.exec (Lexer.start text)).andThen fun r => .ok r.value

end Kfx
