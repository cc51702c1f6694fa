import Kfx.Grammar.Parser
import Kfx.Effect.Basic

/-! The contents of a `Layout` block: vertex layouts, resource blocks and buffers. -/
namespace Kfx.Grammar

open Kfx.Grammar.Parser

/-- A block in braces that is already open: entries that start with a word, up to the closing
brace. -/
def body {σ : Type} (expected : String) (entry : σ → String → Pos → Parser σ) (state : σ) :
    Parser σ :=
  loop (fun st t =>
    match t.lexeme with
    | .symbol .rightBrace => done st
    | .word word => do
      let st' ← entry st word t.pos
      again st'
    | _ => mismatch expected t) state

/-- A block whose entries may each end in a semicolon. -/
def bodyOfStatements {σ : Type} (expected : String) (entry : σ → String → Pos → Parser σ)
    (state : σ) : Parser σ :=
  body expected (fun st word pos => do
    let st' ← entry st word pos
    let _ ← eat .semicolon
    return st') state

/-- The number of elements between the brackets of an array type, `first` the token after the
opening one. -/
def arrayLength (first : Token) : Parser UInt32 := do
  match first.lexeme with
  | .symbol .rightBracket => return 0
  | .number l =>
    if l.value.isNegative then fail (.negativeLength l.value first.pos)
    match l.toCount? with
    | none => fail (.badCount "array size" first)
    | some n =>
      let close ← token
      unless close.lexeme = .symbol .rightBracket do fail (.openArray close)
      return n
  | _ => fail (.openArray first)

def dataType (first : Token) : Parser DataType := do
  match first.lexeme with
  | .word word =>
    match DataKind.ofKeyword? word with
    | none => fail (.unknownWord "data type" word first.pos)
    | some kind =>
      if ← eat .leftBracket then
        let count ← arrayLength (← token)
        return ⟨kind, count⟩
      return ⟨kind, 1⟩
  | _ => mismatch "data type" first

/-- The stages of a list, from behind its opening parenthesis through the closing one. -/
def stageList : Parser StageMask :=
  loop (fun mask t =>
    match t.lexeme with
    | .word word =>
      match StageMask.ofKeyword? word with
      | none => fail (.badValue "shader stage" word t.pos)
      | some stage => do
        let mask := mask.union stage
        let separator ← token
        match separator.lexeme with
        | .symbol .comma => again mask
        | .symbol .rightParen => done mask
        | _ => mismatch "`,` or `)`" separator
    | _ => mismatch TokenKind.word.describe t) StageMask.empty

/-- Everything up to the next closing parenthesis. -/
def skipValue : Parser Unit :=
  loop (fun _ t =>
    match t.lexeme with
    | .symbol .rightParen => done ()
    | .endOfInput => mismatch "`)`" t
    | _ => again ()) ()

def vertexEntry (layout : VertexLayout) (word : String) (pos : Pos) : Parser VertexLayout := do
  match word with
  | "Attribute" =>
    let format ← dataType (← token)
    -- The name of an attribute says what it is for and is not kept.
    let _ ← expectWord
    let binding ← expectCount "attribute binding"
    let location ← expectCount "attribute location"
    let offset ← expectCount "attribute offset"
    return { layout with attributes := layout.attributes ++ [⟨format, binding, location, offset⟩] }
  | "Binding" =>
    let binding ← expectCount "vertex binding"
    let stride ← expectCount "vertex stride"
    let rate ← expectFrom "vertex input rate" InputRate.ofKeyword?
    return { layout with bindings := layout.bindings ++ [⟨binding, stride, rate⟩] }
  | _ => fail (.unknownWord "vertex layout" word pos)

def vertexLayout : Parser VertexLayout := do
  let name ← expectName
  let _ ← expectSymbol .leftBrace
  bodyOfStatements "`Attribute`, `Binding` or `\x7d`" vertexEntry { name }

/-- One property of a binding, `key` already read. A property of an unknown kind is skipped. -/
def property (b : ResourceBinding) (key : String) (pos : Pos) : Parser ResourceBinding := do
  let _ ← expectSymbol .leftParen
  match key with
  | "Stage" =>
    let stages ← stageList
    return { b with stages }
  | "Binding" =>
    let binding ← expectCount "Binding"
    let _ ← expectSymbol .rightParen
    return { b with binding }
  | "Size" =>
    let size ← expectCount "Size"
    let _ ← expectSymbol .rightParen
    return { b with size := some size }
  | "Set" =>
    let set ← expectCount "Set"
    let _ ← expectSymbol .rightParen
    return { b with set }
  | _ =>
    say .warn s!"{pos.text}: ignoring unknown property `{key}` on binding `{b.name}`"
    skipValue
    return b

/-- The properties of a binding in any order, through the semicolon. -/
def properties (b : ResourceBinding) : Parser ResourceBinding :=
  loop (fun b t =>
    match t.lexeme with
    | .symbol .semicolon => done b
    | .word key => do
      let b' ← property b key t.pos
      again b'
    | _ => mismatch "`Key(Value)` or `;`" t) b

def resourceEntry (block : ResourceBlock) (word : String) (pos : Pos) : Parser ResourceBlock := do
  match ResourceKind.ofKeyword? word with
  | none => fail (.unknownWord "resource block" word pos)
  | some kind =>
    let (name, _) ← expectWord
    let binding ← properties { name, kind }
    return { block with bindings := block.bindings ++ [binding] }

def resourceBlock : Parser ResourceBlock := do
  let name ← expectName
  let _ ← expectSymbol .leftBrace
  body "resource binding or `\x7d`" resourceEntry { name }

/-- One field of a buffer, `first` the token its type starts with. -/
def bufferField (first : Token) : Parser BufferField := do
  let type ← dataType first
  let (name, _) ← expectWord
  let t ← token
  match t.lexeme with
  | .word "Stage" =>
    let _ ← expectSymbol .leftParen
    let stages ← stageList
    let _ ← expectSymbol .semicolon
    return ⟨type, name, some stages⟩
  | .symbol .semicolon => return ⟨type, name, none⟩
  | _ => mismatch "`Stage(...)` or `;`" t

/-- A buffer of any sort: its name and its fields. -/
def buffer : Parser Buffer := do
  let name ← expectName
  let _ ← expectSymbol .leftBrace
  let fields ← loop (fun fields t =>
    match t.lexeme with
    | .symbol .rightBrace => done fields
    | _ => do
      let field ← bufferField t
      again (fields ++ [field])) []
  return ⟨name, fields⟩

/-- One definition of a `Layout` block goes to the end of its array. Resources are local unless
they say otherwise. -/
def layoutEntry (e : Effect) (word : String) (pos : Pos) : Parser Effect := do
  match word with
  | "Vertex" =>
    let layout ← vertexLayout
    return { e with vertexLayouts := e.vertexLayouts ++ [layout] }
  | "local" =>
    expectKeyword "Resource"
    let block ← resourceBlock
    return { e with localResources := e.localResources ++ [block] }
  | "global" =>
    expectKeyword "Resource"
    let block ← resourceBlock
    return { e with globalResources := e.globalResources ++ [block] }
  | "Resource" =>
    let block ← resourceBlock
    return { e with localResources := e.localResources ++ [block] }
  | "ConstantBuffer" =>
    let b ← buffer
    return { e with constantBuffers := e.constantBuffers ++ [b] }
  | "UniformBuffer" =>
    let b ← buffer
    return { e with uniformBuffers := e.uniformBuffers ++ [b] }
  | "StorageBuffer" =>
    let b ← buffer
    return { e with storageBuffers := e.storageBuffers ++ [b] }
  | _ => fail (.unknownWord "Layout block" word pos)

def layout (e : Effect) : Parser Effect := do
  let _ ← expectSymbol .leftBrace
  body "layout entry or `\x7d`" layoutEntry e

end Kfx.Grammar
