import Kfx.Effect.Basic
import Kfx.Grammar.Parser
import Kfx.Proofs.Number.Integer

/-!
# Names, keywords and counts

The phrases of the grammar that are one token long, each by its own rules: which tokens are names,
which words are keywords of which sort, and what they stand for. That the parser looks up the same
is shown for each.
-/
namespace Kfx.Grammar

/-- What a character behind a backslash stands for. -/
inductive Escape : Char → Char → Prop
  | newline : Escape 'n' '\n'
  | tab : Escape 't' '\t'
  | carriageReturn : Escape 'r' '\r'
  | zero : Escape '0' '\x00'
  | other {c} (hc : c ∉ ['n', 't', 'r', '0']) : Escape c c

/-- What the raw text between two quotes stands for. A backslash that nothing follows stands for
nothing. -/
inductive Unescapes : List Char → List Char → Prop
  | nil : Unescapes [] []
  | plain {c cs ds} (hc : c ≠ '\\') (rest : Unescapes cs ds) : Unescapes (c :: cs) (c :: ds)
  | escaped {c d cs ds} (hc : Escape c d) (rest : Unescapes cs ds) :
      Unescapes ('\\' :: c :: cs) (d :: ds)
  | lone : Unescapes ['\\'] []

/-- A name is a word, or any text in quotes. -/
inductive IsName : Lexeme → String → Prop
  | word {w} : IsName (.word w) w
  | quoted {raw text} (h : Unescapes raw.toList text) : IsName (.quoted raw) (String.ofList text)

/-- A literal that denotes a natural number of thirty-two bits. -/
def IsCount (l : Number.Literal) (n : UInt32) : Prop := l.Denotes n.toNat

def dataKinds : List (String × DataKind) :=
  [("Float", .float), ("Float2", .float2), ("Float3", .float3), ("Float4", .float4),
   ("Mat4", .mat4), ("Byte", .byte), ("Byte4N", .byte4N), ("UByte", .ubyte),
   ("UByte4N", .ubyte4N), ("UInt", .uint), ("UInt2", .uint2), ("UInt3", .uint3),
   ("UInt4", .uint4), ("Short2", .short2), ("Short2N", .short2N), ("Short4", .short4),
   ("Short4N", .short4N), ("TextureID", .textureId)]

/-- The words of a stage list: one stage each, or all of them. -/
def stageSets : List (String × StageMask) :=
  [("Vertex", ⟨1⟩), ("Geometry", ⟨2⟩), ("Fragment", ⟨4⟩), ("Compute", ⟨8⟩), ("All", ⟨15⟩)]

def inputRates : List (String × InputRate) :=
  [("vertex", .perVertex), ("PerVertex", .perVertex), ("instance", .perInstance),
   ("PerInstance", .perInstance)]

def resourceKinds : List (String × ResourceKind) :=
  [("UniformBuffer", .uniformBuffer), ("StorageBuffer", .storageBuffer), ("Sampler", .sampler)]

def cullModes : List (String × CullMode) :=
  [("Back", .back), ("Front", .front), ("FrontAndBack", .frontAndBack), ("Off", .none),
   ("None", .none)]

/-- A test that is switched off always passes. -/
def compareOps : List (String × CompareOp) :=
  [("Never", .never), ("Less", .less), ("Equal", .equal), ("LEqual", .lessOrEqual),
   ("LessEqual", .lessOrEqual), ("Greater", .greater), ("NotEqual", .notEqual),
   ("GEqual", .greaterOrEqual), ("GreaterEqual", .greaterOrEqual), ("Always", .always),
   ("Off", .always)]

def switches : List (String × Bool) := [("On", true), ("Off", false)]

def blendFactors : List (String × BlendFactor) :=
  [("Zero", .zero), ("One", .one), ("SrcColor", .srcColor),
   ("OneMinusSrcColor", .oneMinusSrcColor), ("DstColor", .dstColor),
   ("OneMinusDstColor", .oneMinusDstColor), ("SrcAlpha", .srcAlpha),
   ("OneMinusSrcAlpha", .oneMinusSrcAlpha), ("DstAlpha", .dstAlpha),
   ("OneMinusDstAlpha", .oneMinusDstAlpha), ("ConstantColor", .constantColor),
   ("OneMinusConstantColor", .oneMinusConstantColor), ("ConstantAlpha", .constantAlpha),
   ("OneMinusConstantAlpha", .oneMinusConstantAlpha), ("SrcAlphaSaturate", .srcAlphaSaturate)]

def blendOps : List (String × BlendOp) :=
  [("Add", .add), ("Sub", .subtract), ("Subtract", .subtract), ("RevSub", .reverseSubtract),
   ("ReverseSubtract", .reverseSubtract), ("Min", .min), ("Max", .max)]

def polygonModes : List (String × PolygonMode) :=
  [("Fill", .fill), ("Line", .line), ("Point", .point)]

/-- The words that declare the stages of a pass. -/
def stageWords : List (String × StageKind) :=
  [("VertexShader", .vertex), ("GeometryShader", .geometry), ("FragmentShader", .fragment),
   ("ComputeShader", .compute)]

/-! What the parser looks up. -/

/-- A character behind a backslash stands for one character, whichever it is. -/
theorem escape_iff {c d : Char} : Escape c d ↔
    (if c = 'n' then '\n' else if c = 't' then '\t' else if c = 'r' then '\r'
      else if c = '0' then '\x00' else c) = d := by
  constructor
  · rintro (_ | _ | _ | _ | hc)
    · simp
    · simp
    · simp
    · simp
    · simp only [List.mem_cons, List.not_mem_nil, or_false, not_or] at hc
      simp [hc]
  · rintro rfl
    split
    · next hc => exact hc ▸ .newline
    · split
      · next hc => exact hc ▸ .tab
      · split
        · next hc => exact hc ▸ .carriageReturn
        · split
          · next hc => exact hc ▸ .zero
          · exact .other (by simp [*])

/-- The rules for escapes are what the parser computes. -/
theorem unescapes_iff {cs ds : List Char} : Unescapes cs ds ↔ unescape cs = ds := by
  constructor
  · intro h
    induction h with
    | nil => rfl
    | plain hc _ ih => simp [unescape, hc, ih]
    | escaped hc _ ih => simp [unescape, escape_iff.mp hc, ih]
    | lone => rfl
  · rintro rfl
    fun_induction unescape cs with
    | case1 => exact .nil
    | case2 => exact .lone
    | case3 c cs ih => exact .escaped (escape_iff.mpr rfl) ih
    | case4 c cs hlone hescaped ih =>
      refine .plain (fun hc => ?_) ih
      cases cs with
      | nil => exact hlone hc rfl
      | cons d ds => exact hescaped d ds hc rfl

theorem nameOf?_eq_some_iff {l : Lexeme} {name : String} :
    nameOf? l = some name ↔ IsName l name := by
  constructor
  · intro h
    cases l with
    | word w =>
      cases h
      exact .word
    | quoted raw =>
      cases h
      exact .quoted (unescapes_iff.mpr rfl)
    | _ => cases h
  · rintro (_ | h)
    · rfl
    · simp [nameOf?, unescapes_iff.mp h]

/-- A quoted text is the name that it reads as without its escapes. -/
theorem isName_quoted {raw name : String} (h : unescape raw.toList = name.toList) :
    IsName (.quoted raw) name := by
  rw [← nameOf?_eq_some_iff, nameOf?, h, String.ofList_toList]

theorem IsName.unique {l : Lexeme} {name name' : String} (h : IsName l name) (h' : IsName l name') :
    name = name' := by
  rw [← nameOf?_eq_some_iff] at h h'
  exact Option.some.inj (h.symm.trans h')

theorem toCount?_eq_some_iff {l : Number.Literal} {n : UInt32} :
    l.toCount? = some n ↔ IsCount l n :=
  Number.Literal.toCount?_eq_some_iff

/-- Looking up values by their keywords. -/
theorem find?_keyword_eq_some_iff {α : Type} {keyword : α → String} {all : List α}
    (h : (all.map keyword).Nodup) {w : String} {a : α} :
    (all.find? fun a => keyword a == w) = some a ↔ (w, a) ∈ all.map fun a => (keyword a, a) := by
  induction all with
  | nil => simp
  | cons b bs ih =>
    rw [List.map_cons, List.nodup_cons] at h
    rw [List.find?_cons, List.map_cons, List.mem_cons, Prod.mk.injEq]
    by_cases hb : keyword b = w
    · simp only [hb, beq_self_eq_true, Option.some.injEq, true_and]
      refine ⟨fun hab => .inl hab.symm, fun hmem => ?_⟩
      rcases hmem with rfl | hmem
      · rfl
      · -- The keyword stands once, so it cannot come again.
        obtain ⟨a', ha', hw⟩ := List.mem_map.mp hmem
        cases hw
        exact absurd (List.mem_map.mpr ⟨a, ha', hb.symm⟩) h.1
    · have hne : ¬(w = keyword b ∧ a = b) := fun hw => hb hw.1.symm
      simp only [beq_eq_false_iff_ne.mpr hb, hne, false_or]
      exact ih h.2

variable {w : String}

theorem dataKind_eq_some_iff {kind : DataKind} :
    DataKind.ofKeyword? w = some kind ↔ (w, kind) ∈ dataKinds :=
  find?_keyword_eq_some_iff (by decide)

theorem resourceKind_eq_some_iff {kind : ResourceKind} :
    ResourceKind.ofKeyword? w = some kind ↔ (w, kind) ∈ resourceKinds :=
  find?_keyword_eq_some_iff (by decide)

theorem blendFactor_eq_some_iff {factor : BlendFactor} :
    BlendFactor.ofKeyword? w = some factor ↔ (w, factor) ∈ blendFactors :=
  find?_keyword_eq_some_iff (by decide)

theorem stageWord_eq_some_iff {kind : StageKind} :
    StageKind.ofPassKeyword? w = some kind ↔ (w, kind) ∈ stageWords :=
  find?_keyword_eq_some_iff (by decide)

/-- Looking up words case by case. -/
theorem lookup_eq_some_iff {α : Type} {lookup : String → Option α} {table : List (String × α)}
    (sound : ∀ {w a}, lookup w = some a → (w, a) ∈ table)
    (complete : ∀ x ∈ table, lookup x.1 = some x.2) {a : α} :
    lookup w = some a ↔ (w, a) ∈ table :=
  ⟨sound, complete (w, a)⟩

theorem stageSet_eq_some_iff {m : StageMask} :
    StageMask.ofKeyword? w = some m ↔ (w, m) ∈ stageSets := by
  refine lookup_eq_some_iff (fun h => ?_) (by decide)
  unfold StageMask.ofKeyword? at h
  split at h <;> cases h <;> decide

theorem inputRate_eq_some_iff {rate : InputRate} :
    InputRate.ofKeyword? w = some rate ↔ (w, rate) ∈ inputRates := by
  refine lookup_eq_some_iff (fun h => ?_) (by decide)
  unfold InputRate.ofKeyword? at h
  split at h <;> cases h <;> decide

theorem cullMode_eq_some_iff {mode : CullMode} :
    CullMode.ofKeyword? w = some mode ↔ (w, mode) ∈ cullModes := by
  refine lookup_eq_some_iff (fun h => ?_) (by decide)
  unfold CullMode.ofKeyword? at h
  split at h <;> cases h <;> decide

theorem compareOp_eq_some_iff {op : CompareOp} :
    CompareOp.ofKeyword? w = some op ↔ (w, op) ∈ compareOps := by
  refine lookup_eq_some_iff (fun h => ?_) (by decide)
  unfold CompareOp.ofKeyword? at h
  split at h <;> cases h <;> decide

theorem switch_eq_some_iff {on : Bool} : switch? w = some on ↔ (w, on) ∈ switches := by
  refine lookup_eq_some_iff (fun h => ?_) (by decide)
  unfold switch? at h
  split at h <;> cases h <;> decide

theorem blendOp_eq_some_iff {op : BlendOp} :
    BlendOp.ofKeyword? w = some op ↔ (w, op) ∈ blendOps := by
  refine lookup_eq_some_iff (fun h => ?_) (by decide)
  unfold BlendOp.ofKeyword? at h
  split at h <;> cases h <;> decide

theorem polygonMode_eq_some_iff {mode : PolygonMode} :
    PolygonMode.ofKeyword? w = some mode ↔ (w, mode) ∈ polygonModes := by
  refine lookup_eq_some_iff (fun h => ?_) (by decide)
  unfold PolygonMode.ofKeyword? at h
  split at h <;> cases h <;> decide

end Kfx.Grammar
