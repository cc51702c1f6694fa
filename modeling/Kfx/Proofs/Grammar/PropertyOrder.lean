import Kfx.Proofs.Grammar.Recognition.Layout
import Kfx.Proofs.Number.Integer

/-!
# Properties in any order

The properties of a resource binding in any order. A binding is determined by the last property of
each kind, and a property that says nothing about a kind leaves it as it is; so only the order among
properties of one kind matters. A list of stages is the union of the stages in it.
-/
namespace Kfx

namespace StageMask

theorem has_union (a b : StageMask) (k : StageKind) :
    (a.union b).has k = true ↔ a.has k = true ∨ b.has k = true := by
  have hparts (c : UInt8) : (a.bits ||| b.bits) &&& c = (a.bits &&& c) ||| (b.bits &&& c) := by
    apply UInt8.toNat_inj.mp
    simp only [UInt8.toNat_and, UInt8.toNat_or, Nat.and_or_distrib_right]
  simp only [has, union, hparts, bne_iff_ne, ne_eq, UInt8.or_eq_zero_iff]
  exact Decidable.not_and_iff_or_not

/-- What a union has, one of its parts has. -/
theorem foldl_union_iff {p : StageMask → Prop} (hempty : ¬ p empty)
    (hunion : ∀ a b, p (a.union b) ↔ p a ∨ p b) (ms : List StageMask) :
    p (ms.foldl union empty) ↔ ∃ m ∈ ms, p m := by
  have hfrom (a : StageMask) : p (ms.foldl union a) ↔ p a ∨ ∃ m ∈ ms, p m := by
    induction ms generalizing a with
    | nil => simp
    | cons m ms ih => simp [ih, hunion, or_assoc]
  simp [hfrom, hempty]

theorem has_foldl_union (ms : List StageMask) (k : StageKind) :
    (ms.foldl union empty).has k = true ↔ ∃ m ∈ ms, m.has k = true :=
  foldl_union_iff (p := fun m => m.has k = true) (by cases k <;> decide) (has_union · · k) ms

/-- Neither order nor repetition matters to a union. -/
theorem foldl_union_congr {ms ms' : List StageMask} (h : ∀ m, m ∈ ms ↔ m ∈ ms') :
    ms.foldl union empty = ms'.foldl union empty := by
  have hbit (i : Nat) (ms : List StageMask) :
      (ms.foldl union empty).bits.toBitVec.getLsbD i = true ↔
        ∃ m ∈ ms, m.bits.toBitVec.getLsbD i = true :=
    foldl_union_iff (p := fun m => m.bits.toBitVec.getLsbD i = true) (by simp [empty])
      (fun a b => by simp [union]) ms
  have hbits : (ms.foldl union empty).bits = (ms'.foldl union empty).bits := by
    apply UInt8.toBitVec_inj.mp
    apply BitVec.eq_of_getLsbD_eq
    intro i _
    rw [Bool.eq_iff_iff, hbit, hbit]
    simp only [h]
  exact congrArg StageMask.mk hbits

end StageMask

inductive PropertyKind
  | stages | binding | size | set | unknown
  deriving DecidableEq

namespace Property

def kind : Property → PropertyKind
  | stages _ => .stages
  | binding _ => .binding
  | size _ => .size
  | set _ => .set
  | unknown => .unknown

def stages? : Property → Option StageMask
  | stages m => some m
  | _ => none

def binding? : Property → Option UInt32
  | binding n => some n
  | _ => none

def size? : Property → Option UInt32
  | size n => some n
  | _ => none

def set? : Property → Option UInt32
  | set n => some n
  | _ => none

end Property

/-- The binding that properties make: of each kind the last one, or what a binding has without
any. -/
def ResourceBinding.ofProperties (name : String) (kind : ResourceKind) (xs : List Property) :
    ResourceBinding where
  name := name
  kind := kind
  stages := (xs.filterMap Property.stages?).getLastD .full
  binding := (xs.filterMap Property.binding?).getLastD 0
  set := (xs.filterMap Property.set?).getLastD 0
  size := (xs.filterMap Property.size?).getLast?
  buffer := none

/-- The same binding made of one property after another. -/
theorem ResourceBinding.ofProperties_eq_foldl (name : String) (kind : ResourceKind)
    (xs : List Property) : ofProperties name kind xs = xs.foldl put { name, kind } := by
  rw [← List.reverse_reverse xs]
  induction xs.reverse with
  | nil => rfl
  | cons x xs ih =>
    rw [List.reverse_cons, List.foldl_append, ← ih]
    cases x <;> simp [ofProperties, put, Property.stages?, Property.binding?, Property.size?,
      Property.set?]

/-- Only the order among properties of one kind matters, and unknown ones do not matter at all. -/
theorem ResourceBinding.ofProperties_congr {xs ys : List Property}
    (h : ∀ k, k ≠ .unknown → xs.filter (·.kind = k) = ys.filter (·.kind = k)) (name : String)
    (kind : ResourceKind) : ofProperties name kind xs = ofProperties name kind ys := by
  have hvalues {α : Type} (value? : Property → Option α) (k : PropertyKind) (hk : k ≠ .unknown)
      (hkind : ∀ x, x.kind ≠ k → value? x = none) : xs.filterMap value? = ys.filterMap value? := by
    have hfilter (zs : List Property) :
        zs.filterMap value? = (zs.filter (·.kind = k)).filterMap value? := by
      rw [List.filterMap_filter]
      congr 1
      funext x
      by_cases hx : x.kind = k
      · simp [hx]
      · simp [hx, hkind x hx]
    rw [hfilter xs, hfilter ys, h k hk]
  have hstages := hvalues Property.stages? .stages (by decide)
    (by rintro ⟨⟩ <;> simp [Property.kind, Property.stages?])
  have hbinding := hvalues Property.binding? .binding (by decide)
    (by rintro ⟨⟩ <;> simp [Property.kind, Property.binding?])
  have hsize := hvalues Property.size? .size (by decide)
    (by rintro ⟨⟩ <;> simp [Property.kind, Property.size?])
  have hset := hvalues Property.set? .set (by decide)
    (by rintro ⟨⟩ <;> simp [Property.kind, Property.set?])
  rw [ofProperties, ofProperties, hstages, hbinding, hsize, hset]

namespace Grammar

open Kfx.Grammar.Parser

/-- A property as it is written. -/
structure PropertyGroup where
  pieces : List Piece
  property : Property
  isProperty : IsProperty pieces property

theorem many_groups (gs : List PropertyGroup) :
    Many IsProperty (gs.flatMap PropertyGroup.pieces) (gs.map PropertyGroup.property) := by
  induction gs with
  | nil => exact .nil
  | cons g gs ih => exact .cons g.isProperty ih

/-- A binding with its properties, from behind its kind through the semicolon. -/
theorem run_resourceEntry_groups {S : Type} [TokenSource S] {w name : String}
    {kind : ResourceKind} {s s' : S} (hkind : ResourceKind.ofKeyword? w = some kind)
    (gs : List PropertyGroup)
    (hreads : Reads s (.word name :: (gs.flatMap PropertyGroup.pieces ++ [.symbol .semicolon])) s')
    (block : ResourceBlock) (pos : Pos) : (resourceEntry block w pos).run s =
      .ok ({ block with bindings := block.bindings ++
        [.ofProperties name kind (gs.map PropertyGroup.property)] }, s') := by
  obtain ⟨s₁, ⟨hname⟩, hrest⟩ := reads_cons.mp hreads
  rw [ResourceBinding.ofProperties_eq_foldl]
  simp only [resourceEntry, hkind, run_bind_eq_ok, run_properties_eq_ok]
  exact ⟨_, s₁, run_expectWord_eq_ok.mpr hname, _, s', ⟨_, _, hrest, many_groups gs, rfl⟩, rfl⟩

theorem stageSets_unique {w : String} {m m' : StageMask} (h : (w, m) ∈ stageSets)
    (h' : (w, m') ∈ stageSets) : m = m' := by
  rw [← stageSet_eq_some_iff] at h h'
  exact Option.some.inj (h.symm.trans h')

theorem IsStages.unique {ps : List Piece} {ms ms' : List StageMask} (h : IsStages ps ms)
    (h' : IsStages ps ms') : ms = ms' := by
  induction h generalizing ms' with
  | last hm =>
    cases h' with
    | last hm' => rw [stageSets_unique hm hm']
  | cons hm _ ih =>
    cases h' with
    | cons hm' htail => rw [stageSets_unique hm hm', ih htail]

/-- A list of stages in parentheses is the union of these stages. -/
theorem PropertyGroup.property_of_stages (g : PropertyGroup) {ps : List Piece}
    {ms : List StageMask} (h : IsStages ps ms)
    (hg : g.pieces = .word "Stage" :: .symbol .leftParen :: (ps ++ [.symbol .rightParen])) :
    g.property = .stages (ms.foldl .union .empty) := by
  obtain ⟨pieces, property, hproperty⟩ := g
  subst hg
  generalize hpieces : Piece.word "Stage" :: Piece.symbol .leftParen ::
    (ps ++ [Piece.symbol .rightParen]) = pieces at hproperty
  cases hproperty with
  | stages h' =>
    simp only [List.cons.injEq, true_and, List.append_left_inj] at hpieces
    subst hpieces
    rw [h.unique h']
  | binding _ | size _ | set _ => simp at hpieces
  | unknown hkey _ =>
    simp only [List.cons.injEq, Piece.token.injEq, Lexeme.word.injEq] at hpieces
    rw [← hpieces.1] at hkey
    simp at hkey

/-- The properties of a binding can stand in any order. Whatever properties are written between a
binding's name and its semicolon, the binding is read, with the last property of each kind and the
default of a kind without one; unknown properties have no effect. A list of stages has exactly the
stages of its members, whatever their order and repetitions. So properties that agree kind by kind,
such as any permutation that keeps the order within each kind, make the same binding. All of this
holds for the lexer of a source as for any other source of tokens. -/
theorem binding_properties_in_any_order :
    (∀ (S : Type) [TokenSource S] (s s' : S) (w name : String) (kind : ResourceKind)
        (gs : List PropertyGroup),
      ResourceKind.ofKeyword? w = some kind →
      Reads s (.word name :: (gs.flatMap PropertyGroup.pieces ++ [.symbol .semicolon])) s' →
      ∀ (block : ResourceBlock) (pos : Pos), (resourceEntry block w pos).run s =
        .ok ({ block with bindings := block.bindings ++
          [.ofProperties name kind (gs.map PropertyGroup.property)] }, s')) ∧
    (∀ (g : PropertyGroup) (ps : List Piece) (ms : List StageMask), IsStages ps ms →
      g.pieces = .word "Stage" :: .symbol .leftParen :: (ps ++ [.symbol .rightParen]) →
      ∃ mask, g.property = .stages mask ∧
        (∀ k, mask.has k = true ↔ ∃ m ∈ ms, m.has k = true) ∧
        ∀ ms' : List StageMask, (∀ m, m ∈ ms ↔ m ∈ ms') → mask = ms'.foldl .union .empty) ∧
    ∀ (S T : Type) [TokenSource S] [TokenSource T] (s s' : S) (t t' : T) (w name : String)
        (kind : ResourceKind) (gs gs' : List PropertyGroup),
      ResourceKind.ofKeyword? w = some kind →
      (∀ k, k ≠ .unknown →
        gs.filter (·.property.kind = k) = gs'.filter (·.property.kind = k)) →
      Reads s (.word name :: (gs.flatMap PropertyGroup.pieces ++ [.symbol .semicolon])) s' →
      Reads t (.word name :: (gs'.flatMap PropertyGroup.pieces ++ [.symbol .semicolon])) t' →
      ∀ (block : ResourceBlock) (pos pos' : Pos), ∃ block',
        (resourceEntry block w pos).run s = .ok (block', s') ∧
          (resourceEntry block w pos').run t = .ok (block', t') := by
  refine ⟨?last, ?stages, ?order⟩
  case last =>
    intro S _ s s' w name kind gs hkind hreads block pos
    exact run_resourceEntry_groups hkind gs hreads block pos
  case stages =>
    intro g ps ms hstages hg
    exact ⟨_, g.property_of_stages hstages hg, StageMask.has_foldl_union ms, fun ms' h =>
      StageMask.foldl_union_congr h⟩
  case order =>
    intro S T _ _ s s' t t' w name kind gs gs' hkind hsame hs ht block pos pos'
    have hproperties : ∀ k, k ≠ .unknown →
        (gs.map PropertyGroup.property).filter (·.kind = k) =
          (gs'.map PropertyGroup.property).filter (·.kind = k) := by
      intro k hk
      rw [List.filter_map, List.filter_map]
      exact congrArg (List.map PropertyGroup.property) (hsame k hk)
    refine ⟨_, run_resourceEntry_groups hkind gs hs block pos, ?_⟩
    rw [ResourceBinding.ofProperties_congr hproperties]
    exact run_resourceEntry_groups hkind gs' ht block pos'

def sizeGroup (d : Char) (n : UInt32) (h : IsCount ⟨false, [d], none⟩ n) : PropertyGroup where
  pieces := [.word "Size", .symbol .leftParen, .number ⟨false, [d], none⟩, .symbol .rightParen]
  property := .size n
  isProperty := .size h

def firstSize : PropertyGroup :=
  sizeGroup '8' 8 ⟨rfl, rfl⟩

def secondSize : PropertyGroup :=
  sizeGroup '2' 2 ⟨rfl, rfl⟩

/-- An unknown property with a semicolon for its value. -/
def flavorGroup : PropertyGroup where
  pieces := [.word "Flavor", .symbol .leftParen, .symbol .semicolon, .symbol .rightParen]
  property := .unknown
  isProperty := @IsProperty.unknown "Flavor" [.symbol .semicolon] (by simp) (by simp)

def stagesGroup : PropertyGroup where
  pieces := [.word "Stage", .symbol .leftParen, .word "Compute", .symbol .comma, .word "Vertex",
    .symbol .comma, .word "Compute", .symbol .rightParen]
  property := .stages ⟨9⟩
  isProperty := .stages (.cons (m := ⟨8⟩) (by decide) (.cons (m := ⟨1⟩) (by decide)
    (.last (m := ⟨8⟩) (by decide))))

/-- The properties behind a name, and with the last two of them in front. -/
def sizedBinding : String := "T Size(8) Flavor(;) Stage(Compute,Vertex,Compute) Size(2);"

def stagedBinding : String := "T Stage(Compute,Vertex,Compute) Size(8) Size(2);"

theorem sizes_and_stages_in_any_order :
    (∀ k, k ≠ .unknown →
      [firstSize, flavorGroup, stagesGroup, secondSize].filter (·.property.kind = k) =
        [stagesGroup, firstSize, secondSize].filter (·.property.kind = k)) ∧
    (resourceEntry ⟨"R", []⟩ "Sampler" ⟨1, 1⟩).run (Lexer.start sizedBinding) =
      .ok (⟨"R", [⟨"T", .sampler, ⟨9⟩, 0, 0, some 2, none⟩]⟩, ⟨58, ⟨1, 59⟩, false⟩) ∧
    ∃ block, (resourceEntry ⟨"R", []⟩ "Sampler" ⟨1, 1⟩).run (Lexer.start sizedBinding) =
        .ok (block, ⟨58, ⟨1, 59⟩, false⟩) ∧
      (resourceEntry ⟨"R", []⟩ "Sampler" ⟨1, 1⟩).run (Lexer.start stagedBinding) =
        .ok (block, ⟨48, ⟨1, 49⟩, false⟩) := by
  obtain ⟨hlast, _, horder⟩ := binding_properties_in_any_order
  have hsame : ∀ k, k ≠ .unknown →
      [firstSize, flavorGroup, stagesGroup, secondSize].filter (·.property.kind = k) =
        [stagesGroup, firstSize, secondSize].filter (·.property.kind = k) := by
    intro k hk
    cases k with
    | stages | binding | size | set => rfl
    | unknown => exact absurd rfl hk
  have hfirst : Reads (Lexer.start sizedBinding)
      (.word "T" :: ([firstSize, flavorGroup, stagesGroup, secondSize].flatMap
        PropertyGroup.pieces ++ [.symbol .semicolon])) ⟨58, ⟨1, 59⟩, false⟩ :=
    reads_of_follow (by decide +kernel)
  have hsecond : Reads (Lexer.start stagedBinding)
      (.word "T" :: ([stagesGroup, firstSize, secondSize].flatMap PropertyGroup.pieces ++
        [.symbol .semicolon])) ⟨48, ⟨1, 49⟩, false⟩ :=
    reads_of_follow (by decide +kernel)
  refine ⟨hsame, hlast _ _ _ "Sampler" "T" .sampler _ rfl hfirst _ _, ?_⟩
  exact horder _ _ _ _ _ _ "Sampler" "T" .sampler _ _ rfl hsame hfirst hsecond _ _ _

end Grammar

end Kfx
