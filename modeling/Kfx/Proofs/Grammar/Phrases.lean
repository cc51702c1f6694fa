import Kfx.Proofs.Grammar.Pieces

/-!
# The grammar of effect sources

The grammar by itself: which pieces form a phrase of which sort, and what the phrase stands for.
Nothing here looks ahead, goes back or fails; that a parser accepts these phrases and no others is
shown elsewhere. Definitions keep the order of the source, references are names.
-/
namespace Kfx

/-! What the parts of a definition stand for, and what they do to it. -/

inductive VertexEntry
  | vertexAttribute (a : VertexAttribute)
  | vertexBinding (b : VertexBinding)

def VertexLayout.add (v : VertexLayout) : VertexEntry → VertexLayout
  | .vertexAttribute a => { v with attributes := v.attributes ++ [a] }
  | .vertexBinding b => { v with bindings := v.bindings ++ [b] }

inductive Property
  | stages (m : StageMask)
  | binding (n : UInt32)
  | size (n : UInt32)
  | set (n : UInt32)
  | unknown

/-- A later property replaces an earlier one of its kind. -/
def ResourceBinding.put (b : ResourceBinding) : Property → ResourceBinding
  | .stages m => { b with stages := m }
  | .binding n => { b with binding := n }
  | .size n => { b with size := some n }
  | .set n => { b with set := n }
  | .unknown => b

inductive StateEntry
  | cull (mode : CullMode)
  | depthTest (op : CompareOp)
  | depthWrite (on : Bool)
  | blendOff
  | blend (src dst alphaSrc alphaDst : BlendFactor)
  | blendOp (color alpha : BlendOp)
  | polygonMode (mode : PolygonMode)
  | lineWidth (bits : UInt32)

/-- A later entry replaces an earlier one; blending that is switched off keeps its factors. -/
def RenderState.put (state : RenderState) : StateEntry → RenderState
  | .cull cull => { state with cull }
  | .depthTest depthTest => { state with depthTest }
  | .depthWrite depthWrite => { state with depthWrite }
  | .blendOff => { state with blend := { state.blend with enabled := false } }
  | .blend src dst alphaSrc alphaDst =>
    { state with blend := { state.blend with
      enabled := true, srcColor := src, dstColor := dst, srcAlpha := alphaSrc,
      dstAlpha := alphaDst } }
  | .blendOp colorOp alphaOp => { state with blend := { state.blend with colorOp, alphaOp } }
  | .polygonMode polygonMode => { state with polygonMode }
  | .lineWidth lineWidth => { state with lineWidth }

/-- The four sorts of reference a pass can have. -/
inductive LinkSort
  | vertexLayout | resources | constantBuffer | renderState
  deriving DecidableEq

def LinkSort.keyword : LinkSort → String
  | vertexLayout => "VertexLayout"
  | resources => "Resources"
  | constantBuffer => "ConstantBuffer"
  | renderState => "RenderState"

inductive PassEntry
  | link (sort : LinkSort) (name : String)
  | stage (kind : StageKind) (name : String)

def PassEntry.sort? : PassEntry → Option LinkSort
  | link sort _ => some sort
  | stage _ _ => none

/-- Links are not resolved and stages not built. -/
def Pass.add (p : Pass) : PassEntry → Pass
  | .link .vertexLayout name => { p with vertexLayout := some ⟨name, none⟩ }
  | .link .resources name => { p with resources := some ⟨name, none⟩ }
  | .link .constantBuffer name => { p with constantBuffer := some ⟨name, none⟩ }
  | .link .renderState name => { p with renderState := some ⟨name, none⟩ }
  | .stage kind name => { p with stages := p.stages ++ [⟨kind, ⟨name, none⟩, []⟩] }

inductive Definition
  | effectName (name : String)
  | vertexLayout (v : VertexLayout)
  | localResources (block : ResourceBlock)
  | globalResources (block : ResourceBlock)
  | constantBuffer (b : Buffer)
  | uniformBuffer (b : Buffer)
  | storageBuffer (b : Buffer)
  | renderState (state : RenderState)
  | pass (p : Pass)
  | codeFragment (f : CodeFragment)

/-- The name that the definition gives to the effect. -/
def Definition.effectName? : Definition → Option String
  | effectName name => some name
  | _ => none

/-- A definition goes to the end of the array of its sort. -/
def Effect.add (e : Effect) : Definition → Effect
  | .effectName name => { e with name }
  | .vertexLayout v => { e with vertexLayouts := e.vertexLayouts ++ [v] }
  | .localResources block => { e with localResources := e.localResources ++ [block] }
  | .globalResources block => { e with globalResources := e.globalResources ++ [block] }
  | .constantBuffer b => { e with constantBuffers := e.constantBuffers ++ [b] }
  | .uniformBuffer b => { e with uniformBuffers := e.uniformBuffers ++ [b] }
  | .storageBuffer b => { e with storageBuffers := e.storageBuffers ++ [b] }
  | .renderState state => { e with renderStates := e.renderStates ++ [state] }
  | .pass p => { e with passes := e.passes ++ [p] }
  | .codeFragment f => { e with codeFragments := e.codeFragments ++ [f] }

/-- The effect that definitions make: those of each sort in the order they stand, and the last of
the names given to it. -/
def Effect.ofDefinitions (definitions : List Definition) : Effect where
  name := (definitions.filterMap Definition.effectName?).getLastD ""
  vertexLayouts := definitions.filterMap fun | .vertexLayout v => some v | _ => none
  localResources := definitions.filterMap fun | .localResources block => some block | _ => none
  globalResources := definitions.filterMap fun | .globalResources block => some block | _ => none
  constantBuffers := definitions.filterMap fun | .constantBuffer b => some b | _ => none
  uniformBuffers := definitions.filterMap fun | .uniformBuffer b => some b | _ => none
  storageBuffers := definitions.filterMap fun | .storageBuffer b => some b | _ => none
  renderStates := definitions.filterMap fun | .renderState state => some state | _ => none
  passes := definitions.filterMap fun | .pass p => some p | _ => none
  codeFragments := definitions.filterMap fun | .codeFragment f => some f | _ => none

/-- The same effect made of one definition after another. -/
theorem Effect.ofDefinitions_eq_foldl (definitions : List Definition) :
    Effect.ofDefinitions definitions = definitions.foldl .add {} := by
  rw [← List.reverse_reverse definitions]
  induction definitions.reverse with
  | nil => rfl
  | cons d ds ih =>
    rw [List.reverse_cons, List.foldl_append, ← ih]
    cases d <;> simp [ofDefinitions, add, Definition.effectName?]

namespace Grammar

/-- A sort of phrase: the pieces of such a phrase and what they stand for. -/
abbrev Phrase (α : Type) := List Piece → α → Prop

section

variable {α : Type}

/-- Phrases of one sort in a row. -/
inductive Many (G : Phrase α) : Phrase (List α)
  | nil : Many G [] []
  | cons {ps qs a as} (head : G ps a) (tail : Many G qs as) : Many G (ps ++ qs) (a :: as)

theorem Many.exists_of_mem {G : Phrase α} {ps : List Piece} {as : List α} (h : Many G ps as) {a : α}
    (ha : a ∈ as) : ∃ qs, G qs a := by
  induction h with
  | nil => cases ha
  | cons head _ ih =>
    rcases List.mem_cons.mp ha with rfl | ha
    · exact ⟨_, head⟩
    · exact ih ha

/-- Phrases in a row that stand for lists, which are put together. -/
inductive Joined (G : Phrase (List α)) : Phrase (List α)
  | mk {ps lists} (h : Many G ps lists) : Joined G ps lists.flatten

/-- A phrase that may end in a semicolon. -/
inductive Statement (G : Phrase α) : Phrase α
  | plain {ps a} (h : G ps a) : Statement G ps a
  | closed {ps a} (h : G ps a) : Statement G (ps ++ [.symbol .semicolon]) a

inductive Block (G : Phrase α) : Phrase (List α)
  | mk {ps as} (h : Many G ps as) :
      Block G (.symbol .leftBrace :: (ps ++ [.symbol .rightBrace])) as

/-- A block with a name before it, which is a word or a text in quotes. -/
inductive NamedBlock (G : Phrase α) : Phrase (String × List α)
  | mk {l name ps as} (hname : IsName l name) (h : Block G ps as) :
      NamedBlock G (.token l :: ps) (name, as)

end

/-- A kind alone, with empty brackets, or with a number of elements in the brackets. -/
inductive IsDataType : Phrase DataType
  | single {w kind} (hkind : (w, kind) ∈ dataKinds) : IsDataType [.word w] ⟨kind, 1⟩
  | unsized {w kind} (hkind : (w, kind) ∈ dataKinds) :
      IsDataType [.word w, .symbol .leftBracket, .symbol .rightBracket] ⟨kind, 0⟩
  | sized {w kind l n} (hkind : (w, kind) ∈ dataKinds) (hn : IsCount l n) :
      IsDataType [.word w, .symbol .leftBracket, .number l, .symbol .rightBracket] ⟨kind, n⟩

inductive IsStages : Phrase (List StageMask)
  | last {w m} (hm : (w, m) ∈ stageSets) : IsStages [.word w] [m]
  | cons {w m ps ms} (hm : (w, m) ∈ stageSets) (tail : IsStages ps ms) :
      IsStages (.word w :: .symbol .comma :: ps) (m :: ms)

/-- The name of an attribute stands for nothing. -/
inductive IsVertexEntry : Phrase VertexEntry
  | vertexAttribute {ps format name l₁ l₂ l₃ binding location offset}
      (hformat : IsDataType ps format) (hbinding : IsCount l₁ binding)
      (hlocation : IsCount l₂ location) (hoffset : IsCount l₃ offset) :
      IsVertexEntry
        (.word "Attribute" :: (ps ++ [.word name, .number l₁, .number l₂, .number l₃]))
        (.vertexAttribute ⟨format, binding, location, offset⟩)
  | vertexBinding {l₁ l₂ w binding stride rate} (hbinding : IsCount l₁ binding)
      (hstride : IsCount l₂ stride) (hrate : (w, rate) ∈ inputRates) :
      IsVertexEntry [.word "Binding", .number l₁, .number l₂, .word w]
        (.vertexBinding ⟨binding, stride, rate⟩)

/-- A property of another kind may have any tokens for its value but a closing parenthesis. -/
inductive IsProperty : Phrase Property
  | stages {ps ms} (h : IsStages ps ms) :
      IsProperty (.word "Stage" :: .symbol .leftParen :: (ps ++ [.symbol .rightParen]))
        (.stages (ms.foldl .union .empty))
  | binding {l n} (hn : IsCount l n) :
      IsProperty [.word "Binding", .symbol .leftParen, .number l, .symbol .rightParen] (.binding n)
  | size {l n} (hn : IsCount l n) :
      IsProperty [.word "Size", .symbol .leftParen, .number l, .symbol .rightParen] (.size n)
  | set {l n} (hn : IsCount l n) :
      IsProperty [.word "Set", .symbol .leftParen, .number l, .symbol .rightParen] (.set n)
  | unknown {key} {ls : List Lexeme} (hkey : key ∉ ["Stage", "Binding", "Size", "Set"])
      (hvalue : ∀ l ∈ ls, l ≠ .symbol .rightParen ∧ l ≠ .endOfInput) :
      IsProperty
        (.word key :: .symbol .leftParen :: (ls.map Piece.token ++ [.symbol .rightParen])) .unknown

inductive IsBinding : Phrase ResourceBinding
  | mk {w kind name ps properties} (hkind : (w, kind) ∈ resourceKinds)
      (h : Many IsProperty ps properties) :
      IsBinding (.word w :: .word name :: (ps ++ [.symbol .semicolon]))
        (properties.foldl .put { name, kind })

inductive IsField : Phrase BufferField
  | plain {ps type name} (htype : IsDataType ps type) :
      IsField (ps ++ [.word name, .symbol .semicolon]) ⟨type, name, none⟩
  | staged {ps qs type name ms} (htype : IsDataType ps type) (h : IsStages qs ms) :
      IsField
        (ps ++ .word name :: .word "Stage" :: .symbol .leftParen ::
          (qs ++ [.symbol .rightParen, .symbol .semicolon]))
        ⟨type, name, some (ms.foldl .union .empty)⟩

inductive IsLayoutEntry : Phrase Definition
  | vertex {ps name entries} (h : NamedBlock (Statement IsVertexEntry) ps (name, entries)) :
      IsLayoutEntry (.word "Vertex" :: ps) (.vertexLayout (entries.foldl .add { name }))
  | resource {ps name bindings} (h : NamedBlock IsBinding ps (name, bindings)) :
      IsLayoutEntry (.word "Resource" :: ps) (.localResources ⟨name, bindings⟩)
  | localResource {ps name bindings} (h : NamedBlock IsBinding ps (name, bindings)) :
      IsLayoutEntry (.word "local" :: .word "Resource" :: ps) (.localResources ⟨name, bindings⟩)
  | globalResource {ps name bindings} (h : NamedBlock IsBinding ps (name, bindings)) :
      IsLayoutEntry (.word "global" :: .word "Resource" :: ps) (.globalResources ⟨name, bindings⟩)
  | constantBuffer {ps name fields} (h : NamedBlock IsField ps (name, fields)) :
      IsLayoutEntry (.word "ConstantBuffer" :: ps) (.constantBuffer ⟨name, fields⟩)
  | uniformBuffer {ps name fields} (h : NamedBlock IsField ps (name, fields)) :
      IsLayoutEntry (.word "UniformBuffer" :: ps) (.uniformBuffer ⟨name, fields⟩)
  | storageBuffer {ps name fields} (h : NamedBlock IsField ps (name, fields)) :
      IsLayoutEntry (.word "StorageBuffer" :: ps) (.storageBuffer ⟨name, fields⟩)

/-- What stands behind the word `Blend`. The factors for alpha are those for colour unless they are
written. -/
inductive IsBlend : Phrase StateEntry
  | off {w} (h : w = "Off" ∨ w = "None") : IsBlend [.word w] .blendOff
  | color {w₁ w₂ src dst} (hsrc : (w₁, src) ∈ blendFactors)
      (hdst : (w₂, dst) ∈ blendFactors) :
      IsBlend [.word w₁, .word w₂] (.blend src dst src dst)
  | alpha {w₁ w₂ w₃ w₄ src dst alphaSrc alphaDst} (hsrc : (w₁, src) ∈ blendFactors)
      (hdst : (w₂, dst) ∈ blendFactors)
      (halphaSrc : (w₃, alphaSrc) ∈ blendFactors)
      (halphaDst : (w₄, alphaDst) ∈ blendFactors) :
      IsBlend [.word w₁, .word w₂, .symbol .comma, .word w₃, .word w₄]
        (.blend src dst alphaSrc alphaDst)

/-- The operation for alpha is the one for colour unless it is written. -/
inductive IsStateEntry : Phrase StateEntry
  | cull {w mode} (h : (w, mode) ∈ cullModes) :
      IsStateEntry [.word "Cull", .word w] (.cull mode)
  | depthTest {w op} (h : (w, op) ∈ compareOps) :
      IsStateEntry [.word "ZTest", .word w] (.depthTest op)
  | depthWrite {w on} (h : (w, on) ∈ switches) :
      IsStateEntry [.word "ZWrite", .word w] (.depthWrite on)
  | blend {ps x} (h : IsBlend ps x) : IsStateEntry (.word "Blend" :: ps) x
  | blendOp {w color} (h : (w, color) ∈ blendOps) :
      IsStateEntry [.word "BlendOp", .word w] (.blendOp color color)
  | blendOpAlpha {w₁ w₂ color alpha} (hcolor : (w₁, color) ∈ blendOps)
      (halpha : (w₂, alpha) ∈ blendOps) :
      IsStateEntry [.word "BlendOp", .word w₁, .symbol .comma, .word w₂] (.blendOp color alpha)
  | polygonMode {w mode} (h : (w, mode) ∈ polygonModes) :
      IsStateEntry [.word "PolygonMode", .word w] (.polygonMode mode)
  | lineWidth {l} : IsStateEntry [.word "LineWidth", .number l] (.lineWidth l.value.toSingle)

inductive IsRenderState : Phrase RenderState
  | mk {ps name entries} (h : NamedBlock (Statement IsStateEntry) ps (name, entries)) :
      IsRenderState ps (entries.foldl .put { name })

inductive IsListedState : Phrase RenderState
  | mk {ps state} (h : IsRenderState ps state) : IsListedState (.word "State" :: ps) state

inductive IsPassEntry : Phrase PassEntry
  | link (sort : LinkSort) {l name} (hname : IsName l name) :
      IsPassEntry [.word sort.keyword, .token l] (.link sort name)
  | stage {w kind l name} (hkind : (w, kind) ∈ stageWords)
      (hname : IsName l name) : IsPassEntry [.word w, .token l] (.stage kind name)

/-- No sort of reference stands twice in a pass. -/
inductive IsPass : Phrase Pass
  | mk {ps name entries} (h : NamedBlock (Statement IsPassEntry) ps (name, entries))
      (once : (entries.filterMap PassEntry.sort?).Nodup) :
      IsPass ps (entries.foldl .add { name })

/-- An item of a source; `Nested` says what may stand in a `Shader` block. A word that starts no
item is one by itself and stands for nothing. -/
inductive IsItem (Nested : Phrase (List Definition)) : Phrase (List Definition)
  | shader {l name ps ds} (hname : IsName l name) (h : Nested ps ds) :
      IsItem Nested
        (.word "Shader" :: .token l :: .symbol .leftBrace :: (ps ++ [.symbol .rightBrace]))
        (.effectName name :: ds)
  | layout {ps ds} (h : Block IsLayoutEntry ps ds) : IsItem Nested (.word "Layout" :: ps) ds
  | code {l name text} (hname : IsName l name) :
      IsItem Nested [.word "GLSL", .token l, .raw text] [.codeFragment ⟨name, text⟩]
  | renderState {ps state} (h : IsRenderState ps state) :
      IsItem Nested (.word "RenderState" :: ps) [.renderState state]
  | renderStates {ps states} (h : Block IsListedState ps states) :
      IsItem Nested (.word "RenderState" :: ps) (states.map .renderState)
  | pass {ps p} (h : IsPass ps p) : IsItem Nested (.word "Pass" :: ps) [.pass p]
  | other {w} (hw : w ∉ ["Shader", "Layout", "GLSL", "RenderState", "Pass"]) :
      IsItem Nested [.word w] []

/-- Items with `Shader` blocks nested at most `depth` deep. -/
def IsItems : (depth : Nat) → Phrase (List Definition)
  | 0 => Joined (IsItem fun _ _ => False)
  | depth + 1 => Joined (IsItem (IsItems depth))

end Grammar

end Kfx
