import Kfx.Proofs.Difference

/-!
# An effect as a list of places

An effect written out as a list of places with their values, in a fixed order: names before arrays,
the length of an array before its elements, elements by their index, and fields as they are listed
here. Since lengths come first, the lists of two effects have the same places up to the first one
where the values differ. That is the place a comparison reports.
-/
namespace Kfx

/-- A value that is compared as a whole, of whatever type. -/
structure Leaf where
  {type : Type}
  [shown : Shown type]
  value : type

def Leaf.text (l : Leaf) : String :=
  l.shown.shown l.value

theorem Leaf.mk_inj {α : Type} [Shown α] {a b : α} : Leaf.mk a = Leaf.mk b ↔ a = b := by
  constructor
  · intro h
    cases h
    rfl
  · exact congrArg Leaf.mk

/-- Places with their values, in order. -/
abbrev Listing := List (String × Leaf)

namespace Listing

variable {α : Type}

def ofValue [Shown α] (path : String) (a : α) : Listing :=
  [(path, ⟨a⟩)]

/-- Elements one after another, numbered from `i`. -/
def ofElements (path : String) (listing : String → α → Listing) : Nat → List α → Listing
  | _, [] => []
  | i, a :: as => listing s!"{path}[{i}]" a ++ ofElements path listing (i + 1) as

def ofArray (path : String) (listing : String → α → Listing) (as : List α) : Listing :=
  ofValue (path ++ ".len()") as.length ++ ofElements path listing 0 as

def ofAttribute (p : String) (a : VertexAttribute) : Listing :=
  List.flatten [
    ofValue (p ++ ".format") a.format,
    ofValue (p ++ ".binding") a.binding,
    ofValue (p ++ ".location") a.location,
    ofValue (p ++ ".offset") a.offset]

def ofVertexBinding (p : String) (b : VertexBinding) : Listing :=
  List.flatten [
    ofValue (p ++ ".binding") b.binding,
    ofValue (p ++ ".stride") b.stride,
    ofValue (p ++ ".rate") b.rate]

def ofVertexLayout (p : String) (v : VertexLayout) : Listing :=
  List.flatten [
    ofValue (p ++ ".name") v.name,
    ofArray (p ++ ".attributes") ofAttribute v.attributes,
    ofArray (p ++ ".bindings") ofVertexBinding v.bindings]

def ofBinding (p : String) (b : ResourceBinding) : Listing :=
  List.flatten [
    ofValue (p ++ ".name") b.name,
    ofValue (p ++ ".kind") b.kind,
    ofValue (p ++ ".stages") b.stages,
    ofValue (p ++ ".binding") b.binding,
    ofValue (p ++ ".set") b.set,
    ofValue (p ++ ".size") b.size,
    ofValue (p ++ ".buffer") (b.buffer.map BufferIndex.mk)]

def ofBlock (p : String) (b : ResourceBlock) : Listing :=
  List.flatten [
    ofValue (p ++ ".name") b.name,
    ofArray (p ++ ".bindings") ofBinding b.bindings]

def ofField (p : String) (f : BufferField) : Listing :=
  List.flatten [
    ofValue (p ++ ".ty") f.type,
    ofValue (p ++ ".name") f.name,
    ofValue (p ++ ".stages") f.stages]

def ofBuffer (p : String) (b : Buffer) : Listing :=
  List.flatten [
    ofValue (p ++ ".name") b.name,
    ofArray (p ++ ".fields") ofField b.fields]

def ofBlendMode (p : String) (m : BlendMode) : Listing :=
  List.flatten [
    ofValue (p ++ ".enabled") m.enabled,
    ofValue (p ++ ".src_color") m.srcColor,
    ofValue (p ++ ".dst_color") m.dstColor,
    ofValue (p ++ ".src_alpha") m.srcAlpha,
    ofValue (p ++ ".dst_alpha") m.dstAlpha,
    ofValue (p ++ ".color_op") m.colorOp,
    ofValue (p ++ ".alpha_op") m.alphaOp]

/-- The width stands by its bits. -/
def ofRenderState (p : String) (s : RenderState) : Listing :=
  List.flatten [
    ofValue (p ++ ".name") s.name,
    ofValue (p ++ ".cull") s.cull,
    ofValue (p ++ ".depth_test") s.depthTest,
    ofValue (p ++ ".depth_write") s.depthWrite,
    ofBlendMode (p ++ ".blend") s.blend,
    ofValue (p ++ ".polygon_mode") s.polygonMode,
    ofValue (p ++ ".line_width") s.lineWidth]

def ofFragment (p : String) (f : CodeFragment) : Listing :=
  List.flatten [
    ofValue (p ++ ".name") f.name,
    ofValue (p ++ ".source") f.source]

def ofLink (p : String) (l : Option Link) : Listing :=
  List.flatten [
    ofValue p (l.map Link.name),
    ofValue (p ++ ".target") (l.bind Link.target)]

/-- Of the code only what it is called, not where it is. -/
def ofStage (p : String) (s : Stage) : Listing :=
  List.flatten [
    ofValue (p ++ ".kind") s.kind,
    ofValue (p ++ ".fragment") s.fragment.name,
    ofValue (p ++ ".bytecode") s.bytecode]

def ofPass (p : String) (pass : Pass) : Listing :=
  List.flatten [
    ofValue (p ++ ".name") pass.name,
    ofLink (p ++ ".vertex_layout") pass.vertexLayout,
    ofLink (p ++ ".resources") pass.resources,
    ofLink (p ++ ".constant_buffer") pass.constantBuffer,
    ofLink (p ++ ".render_state") pass.renderState,
    ofArray (p ++ ".stages") ofStage pass.stages]

/-- The two listings agree in places and values up to `d.path`, where they have different values,
and `d` shows these. -/
def PartAt (as bs : Listing) (d : Difference) : Prop :=
  ∃ common left right as' bs', left ≠ right ∧
    as = common ++ (d.path, left) :: as' ∧ bs = common ++ (d.path, right) :: bs' ∧
    d.left = left.text ∧ d.right = right.text

end Listing

open Listing in
/-- All that is compared of an effect, in the order of comparison. -/
def Effect.listing (e : Effect) : Listing :=
  List.flatten [
    ofValue "name" e.name,
    ofValue "source_path" e.sourcePath,
    ofArray "vertex_layouts" ofVertexLayout e.vertexLayouts,
    ofArray "local_resources" ofBlock e.localResources,
    ofArray "global_resources" ofBlock e.globalResources,
    ofArray "constant_buffers" ofBuffer e.constantBuffers,
    ofArray "uniform_buffers" ofBuffer e.uniformBuffers,
    ofArray "storage_buffers" ofBuffer e.storageBuffers,
    ofArray "render_states" ofRenderState e.renderStates,
    ofArray "code_fragments" ofFragment e.codeFragments,
    ofArray "passes" ofPass e.passes]

namespace Listing

variable {α : Type} {as as' bs bs' : Listing} {d d' : Difference}

theorem PartAt.append (h : PartAt as bs d) (as' bs' : Listing) :
    PartAt (as ++ as') (bs ++ bs') d := by
  obtain ⟨common, left, right, tail, tail', hne, rfl, rfl, hleft, hright⟩ := h
  exact ⟨common, left, right, tail ++ as', tail' ++ bs', hne, by simp, by simp, hleft, hright⟩

theorem PartAt.prepend (common : Listing) (h : PartAt as bs d) :
    PartAt (common ++ as) (common ++ bs) d := by
  obtain ⟨more, left, right, tail, tail', hne, rfl, rfl, hleft, hright⟩ := h
  exact ⟨common ++ more, left, right, tail, tail', hne, by simp, by simp, hleft, hright⟩

/-- The values at the place where listings part can be exchanged along with the listings. -/
theorem PartAt.swap (h : PartAt as bs d) : PartAt bs as ⟨d.path, d.right, d.left⟩ := by
  obtain ⟨common, left, right, tail, tail', hne, has, hbs, hleft, hright⟩ := h
  exact ⟨common, right, left, tail', tail, hne.symm, hbs, has, hright, hleft⟩

theorem PartAt.ne (h : PartAt as bs d) : as ≠ bs := by
  obtain ⟨common, left, right, tail, tail', hne, rfl, rfl, _, _⟩ := h
  intro heq
  have htails := List.append_cancel_left heq
  have hheads : (d.path, left) = (d.path, right) := (List.cons.inj htails).1
  exact hne (congrArg Prod.snd hheads)

/-- Two listings part at one place only. -/
theorem PartAt.unique (h : PartAt as bs d) (h' : PartAt as bs d') : d = d' := by
  obtain ⟨common, left, right, tail, tail', hne, has, hbs, hleft, hright⟩ := h
  obtain ⟨common', left', right', rest, rest', hne', has', hbs', hleft', hright'⟩ := h'
  -- neither common part can reach beyond the other: the listings agree there
  induction common generalizing as bs common' with
  | nil =>
    cases common' with
    | nil =>
      rw [has, List.nil_append, List.nil_append, List.cons.injEq, Prod.mk.injEq] at has'
      rw [hbs, List.nil_append, List.nil_append, List.cons.injEq, Prod.mk.injEq] at hbs'
      obtain ⟨⟨hpath, rfl⟩, _⟩ := has'
      obtain ⟨⟨_, rfl⟩, _⟩ := hbs'
      cases d
      cases d'
      simp_all
    | cons entry common' =>
      have hfirst : (d.path, left) = entry := (List.cons.inj (has.symm.trans has')).1
      have hsecond : (d.path, right) = entry := (List.cons.inj (hbs.symm.trans hbs')).1
      exact absurd (congrArg Prod.snd (hfirst.trans hsecond.symm)) hne
  | cons entry common ih =>
    cases common' with
    | nil =>
      have hfirst : entry = (d'.path, left') := (List.cons.inj (has.symm.trans has')).1
      have hsecond : entry = (d'.path, right') := (List.cons.inj (hbs.symm.trans hbs')).1
      exact absurd (congrArg Prod.snd (hfirst.symm.trans hsecond)) hne'
    | cons entry' common' =>
      have htails := (List.cons.inj (has.symm.trans has')).2
      have htails' := (List.cons.inj (hbs.symm.trans hbs')).2
      exact ih rfl rfl common' htails htails'

/-- A comparison comes to nothing on equal listings, and to the place where they part on others. -/
def Finds : Option Difference → Listing → Listing → Prop
  | none, as, bs => as = bs
  | some d, as, bs => PartAt as bs d

theorem Finds.orElse {x y : Option Difference} (hx : Finds x as bs) (hy : Finds y as' bs') :
    Finds (x.orElse fun _ => y) (as ++ as') (bs ++ bs') := by
  cases x with
  | some d => exact PartAt.append hx as' bs'
  | none =>
    have hsame : as = bs := hx
    rw [← hsame]
    cases y with
    | none => exact congrArg (as ++ ·) hy
    | some d => exact PartAt.prepend as hy

theorem finds_value [DecidableEq α] [Shown α] {path : String} {a b : α} :
    Finds (Difference.ofValues path a b) (ofValue path a) (ofValue path b) := by
  unfold Difference.ofValues
  by_cases h : a = b
  · rw [if_pos h, h]
    rfl
  · rw [if_neg h]
    exact ⟨[], ⟨a⟩, ⟨b⟩, [], [], fun heq => h (Leaf.mk_inj.mp heq), rfl, rfl, rfl, rfl⟩

theorem finds_nothing : Finds (Difference.first []) (List.flatten []) (List.flatten []) := rfl

theorem Finds.cons {x : Option Difference} {xs : List (Unit → Option Difference)}
    {ass bss : List Listing} (hx : Finds x as bs)
    (hxs : Finds (Difference.first xs) ass.flatten bss.flatten) :
    Finds (Difference.first ((fun _ => x) :: xs)) (List.flatten (as :: ass))
      (List.flatten (bs :: bss)) := by
  have hfirst : Difference.first ((fun _ => x) :: xs) = x.orElse fun _ => Difference.first xs := by
    rw [Difference.first, List.findSome?_cons]
    cases x <;> rfl
  rw [hfirst]
  exact hx.orElse hxs

section

variable {diff : String → α → α → Option Difference} {listing : String → α → Listing}

theorem finds_elements (finds : ∀ p a b, Finds (diff p a b) (listing p a) (listing p b))
    {path : String} {i : Nat} {items others : List α} (length : items.length = others.length) :
    Finds (Difference.ofElements path diff i items others) (ofElements path listing i items)
      (ofElements path listing i others) := by
  induction items generalizing i others with
  | nil =>
    cases others with
    | nil => rfl
    | cons b others => cases length
  | cons a items ih =>
    cases others with
    | nil => cases length
    | cons b others => exact (finds _ a b).orElse (ih (Nat.succ.inj length))

/-- Arrays of two lengths part at their lengths, so the places of their elements never meet. -/
theorem finds_array (finds : ∀ p a b, Finds (diff p a b) (listing p a) (listing p b))
    {path : String} {items others : List α} :
    Finds (Difference.ofArrays path diff items others) (ofArray path listing items)
      (ofArray path listing others) := by
  by_cases length : items.length = others.length
  · exact finds_value.orElse (finds_elements finds length)
  · have hlengths : Finds (Difference.ofValues (path ++ ".len()") items.length others.length)
        (ofValue (path ++ ".len()") items.length) (ofValue (path ++ ".len()") others.length) :=
      finds_value
    rw [Difference.ofArrays]
    rw [Difference.ofValues, if_neg length] at hlengths ⊢
    exact PartAt.append hlengths _ _

end

theorem finds_attribute (p : String) (a b : VertexAttribute) :
    Finds (Difference.ofAttributes p a b) (ofAttribute p a) (ofAttribute p b) :=
  finds_value.cons <| finds_value.cons <| finds_value.cons <| finds_value.cons finds_nothing

theorem finds_vertexBinding (p : String) (a b : VertexBinding) :
    Finds (Difference.ofVertexBindings p a b) (ofVertexBinding p a) (ofVertexBinding p b) :=
  finds_value.cons <| finds_value.cons <| finds_value.cons finds_nothing

theorem finds_vertexLayout (p : String) (a b : VertexLayout) :
    Finds (Difference.ofVertexLayouts p a b) (ofVertexLayout p a) (ofVertexLayout p b) :=
  finds_value.cons <| (finds_array finds_attribute).cons <|
    (finds_array finds_vertexBinding).cons finds_nothing

theorem finds_binding (p : String) (a b : ResourceBinding) :
    Finds (Difference.ofBindings p a b) (ofBinding p a) (ofBinding p b) :=
  finds_value.cons <| finds_value.cons <| finds_value.cons <| finds_value.cons <|
    finds_value.cons <| finds_value.cons <| finds_value.cons finds_nothing

theorem finds_block (p : String) (a b : ResourceBlock) :
    Finds (Difference.ofBlocks p a b) (ofBlock p a) (ofBlock p b) :=
  finds_value.cons <| (finds_array finds_binding).cons finds_nothing

theorem finds_field (p : String) (a b : BufferField) :
    Finds (Difference.ofFields p a b) (ofField p a) (ofField p b) :=
  finds_value.cons <| finds_value.cons <| finds_value.cons finds_nothing

theorem finds_buffer (p : String) (a b : Buffer) :
    Finds (Difference.ofBuffers p a b) (ofBuffer p a) (ofBuffer p b) :=
  finds_value.cons <| (finds_array finds_field).cons finds_nothing

theorem finds_blendMode (p : String) (a b : BlendMode) :
    Finds (Difference.ofBlendModes p a b) (ofBlendMode p a) (ofBlendMode p b) :=
  finds_value.cons <| finds_value.cons <| finds_value.cons <| finds_value.cons <|
    finds_value.cons <| finds_value.cons <| finds_value.cons finds_nothing

theorem finds_renderState (p : String) (a b : RenderState) :
    Finds (Difference.ofRenderStates p a b) (ofRenderState p a) (ofRenderState p b) :=
  finds_value.cons <| finds_value.cons <| finds_value.cons <| finds_value.cons <|
    (finds_blendMode _ _ _).cons <| finds_value.cons <| finds_value.cons finds_nothing

theorem finds_fragment (p : String) (a b : CodeFragment) :
    Finds (Difference.ofFragments p a b) (ofFragment p a) (ofFragment p b) :=
  finds_value.cons <| finds_value.cons finds_nothing

theorem finds_link (p : String) (a b : Option Link) :
    Finds (Difference.ofLinks p a b) (ofLink p a) (ofLink p b) :=
  finds_value.cons <| finds_value.cons finds_nothing

theorem finds_stage (p : String) (a b : Stage) :
    Finds (Difference.ofStages p a b) (ofStage p a) (ofStage p b) :=
  finds_value.cons <| finds_value.cons <| finds_value.cons finds_nothing

theorem finds_pass (p : String) (a b : Pass) :
    Finds (Difference.ofPasses p a b) (ofPass p a) (ofPass p b) :=
  finds_value.cons <| (finds_link _ _ _).cons <| (finds_link _ _ _).cons <|
    (finds_link _ _ _).cons <| (finds_link _ _ _).cons <|
    (finds_array finds_stage).cons finds_nothing

theorem finds_effect (a b : Effect) : Finds (a.difference? b) a.listing b.listing :=
  finds_value.cons <| finds_value.cons <| (finds_array finds_vertexLayout).cons <|
    (finds_array finds_block).cons <| (finds_array finds_block).cons <|
    (finds_array finds_buffer).cons <| (finds_array finds_buffer).cons <|
    (finds_array finds_buffer).cons <| (finds_array finds_renderState).cons <|
    (finds_array finds_fragment).cons <| (finds_array finds_pass).cons finds_nothing

end Listing

def Difference.swap (d : Difference) : Difference :=
  ⟨d.path, d.right, d.left⟩

open Listing

/-- The difference that is found is at the first place where the two listings part. -/
theorem Effect.difference?_eq_some {a b : Effect} {d : Difference} :
    a.difference? b = some d ↔ PartAt a.listing b.listing d := by
  have hfinds := finds_effect a b
  cases hdiff : a.difference? b with
  | none =>
    rw [hdiff] at hfinds
    constructor
    · intro h
      cases h
    · intro hpart
      exact absurd hfinds hpart.ne
  | some found =>
    rw [hdiff] at hfinds
    constructor
    · intro h
      cases h
      exact hfinds
    · intro hpart
      rw [hpart.unique hfinds]

/-- Effects have no difference exactly when they agree in everything but where the code of stages
is. Otherwise the difference is at the first place in the order of the listing where they disagree;
and compared the other way round they have the same difference with its sides exchanged. -/
theorem Effect.difference?_first_and_symmetric (a b : Effect) :
    (a.difference? b = none ↔ a.placeless = b.placeless) ∧
    (∀ d, a.difference? b = some d ↔ PartAt a.listing b.listing d) ∧
    b.difference? a = (a.difference? b).map Difference.swap := by
  refine ⟨Effect.difference?_eq_none, fun d => Effect.difference?_eq_some, ?_⟩
  cases hdiff : a.difference? b with
  | none =>
    have hsame : b.placeless = a.placeless := (Effect.difference?_eq_none.mp hdiff).symm
    exact Effect.difference?_eq_none.mpr hsame
  | some d =>
    have hpart : PartAt a.listing b.listing d := Effect.difference?_eq_some.mp hdiff
    exact Effect.difference?_eq_some.mpr hpart.swap

end Kfx
