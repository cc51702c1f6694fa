import Kfx.Grammar.Layout

/-! Render states: one under its own name, or several in a block. -/
namespace Kfx.Grammar

open Kfx.Grammar.Parser

def blendFactor : Parser BlendFactor :=
  expectFrom "blend factor" BlendFactor.ofKeyword?

def blendOp : Parser BlendOp :=
  expectFrom "blend op" BlendOp.ofKeyword?

/-- Factors for colour and, after a comma, for alpha; without them alpha goes like colour. -/
def blend (mode : BlendMode) : Parser BlendMode := do
  let (word, pos) ← expectWord
  if word = "Off" ∨ word = "None" then return { mode with enabled := false }
  match BlendFactor.ofKeyword? word with
  | none => fail (.badValue "blend factor" word pos)
  | some src =>
    let dst ← blendFactor
    let (alphaSrc, alphaDst) ← (do
      if ← eat .comma then
        let a ← blendFactor
        let b ← blendFactor
        return (a, b)
      return (src, dst))
    return { mode with
      enabled := true
      srcColor := src
      dstColor := dst
      srcAlpha := alphaSrc
      dstAlpha := alphaDst }

def stateEntry (state : RenderState) (word : String) (pos : Pos) : Parser RenderState := do
  match word with
  | "Cull" =>
    let cull ← expectFrom "cull mode" CullMode.ofKeyword?
    return { state with cull }
  | "ZTest" =>
    let depthTest ← expectFrom "depth compare op" CompareOp.ofKeyword?
    return { state with depthTest }
  | "ZWrite" =>
    let depthWrite ← expectFrom "On/Off switch" switch?
    return { state with depthWrite }
  | "Blend" =>
    let mode ← blend state.blend
    return { state with blend := mode }
  | "BlendOp" =>
    let color ← blendOp
    let alpha ← (do if ← eat .comma then blendOp else return color)
    return { state with blend := { state.blend with colorOp := color, alphaOp := alpha } }
  | "PolygonMode" =>
    let polygonMode ← expectFrom "polygon mode" PolygonMode.ofKeyword?
    return { state with polygonMode }
  | "LineWidth" =>
    let width ← expectNumber "LineWidth"
    return { state with lineWidth := width.toSingle }
  | _ => fail (.unknownWord "render state" word pos)

/-- The entries of a state in any order; a later one replaces an earlier one. -/
def renderState (name : String) : Parser RenderState := do
  let _ ← expectSymbol .leftBrace
  bodyOfStatements "render state entry or `\x7d`" stateEntry { name }

/-- The states after the word `RenderState`. -/
def renderStates (states : List RenderState) : Parser (List RenderState) := do
  let t ← token
  match t.lexeme with
  | .symbol .leftBrace =>
    loop (fun states t =>
      match t.lexeme with
      | .symbol .rightBrace => done states
      | .word "State" => do
        let state ← renderState (← expectName)
        again (states ++ [state])
      | _ => fail (.notKeyword "State" t)) states
  | l =>
    match nameOf? l with
    | none => mismatch "render state name or `\x7b`" t
    | some name =>
      let state ← renderState name
      return states ++ [state]

end Kfx.Grammar
