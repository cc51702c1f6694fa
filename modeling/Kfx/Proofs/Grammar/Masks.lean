import Kfx.Grammar.Source
import Kfx.Proofs.Artifact.Layout
import Kfx.Proofs.Grammar.Ensures

/-! A source can only name stages that exist, so the masks of a parsed effect hold known stages
only. -/
namespace Kfx

namespace StageMask

theorem IsKnown.union {a b : StageMask} (ha : a.IsKnown) (hb : b.IsKnown) :
    (a.union b).IsKnown := by
  unfold IsKnown at *
  apply UInt8.toNat_inj.mp
  rw [StageMask.union, UInt8.toNat_and, UInt8.toNat_or, Nat.and_or_distrib_right,
    ← UInt8.toNat_and, ← UInt8.toNat_and, ha, hb]
  rfl

theorem isKnown_empty : empty.IsKnown := by decide

theorem isKnown_full : full.IsKnown := by decide

theorem isKnown_of_ofKeyword? {word : String} {m : StageMask} (h : ofKeyword? word = some m) :
    m.IsKnown := by
  unfold ofKeyword? at h
  split at h <;> cases h <;> decide

end StageMask

namespace Grammar

open Kfx.Grammar.Parser

theorem ensures_body {σ : Type} {expected : String} {entry : σ → String → Pos → Parser σ}
    {invariant : σ → Prop}
    (step : ∀ st word pos, invariant st → Ensures (entry st word pos) invariant) {state : σ}
    (start : invariant state) : Ensures (body expected entry state) invariant := by
  refine ensures_loop invariant (fun st t hst => ?_) start
  split
  · exact ensures_done hst
  · exact (step st _ t.pos hst).bind fun st' hst' => ensures_again hst'
  · exact ensures_mismatch _ _

theorem ensures_stageList : Ensures stageList StageMask.IsKnown := by
  refine ensures_loop StageMask.IsKnown (fun mask t hmask => ?_) StageMask.isKnown_empty
  split
  · split
    · exact ensures_fail _
    · next stage hstage =>
      have hunion := hmask.union (StageMask.isKnown_of_ofKeyword? hstage)
      refine ensures_bind fun separator => ?_
      split
      · exact ensures_again hunion
      · exact ensures_done hunion
      · exact ensures_mismatch _ _
  · exact ensures_mismatch _ _

theorem ensures_property {b : ResourceBinding} (hb : b.stages.IsKnown) (key : String) (pos : Pos) :
    Ensures (property b key pos) fun b' => b'.stages.IsKnown := by
  refine ensures_bind fun _ => ?_
  split
  · exact ensures_stageList.bind fun stages hstages => ensures_pure hstages
  · exact ensures_bind fun _ => ensures_bind fun _ => ensures_pure hb
  · exact ensures_bind fun _ => ensures_bind fun _ => ensures_pure hb
  · exact ensures_bind fun _ => ensures_bind fun _ => ensures_pure hb
  · exact ensures_bind fun _ => ensures_bind fun _ => ensures_pure hb

theorem ensures_properties {b : ResourceBinding} (hb : b.stages.IsKnown) :
    Ensures (properties b) fun b' => b'.stages.IsKnown := by
  refine ensures_loop (fun b => b.stages.IsKnown) (fun b t hb => ?_) hb
  split
  · exact ensures_done hb
  · exact (ensures_property hb _ t.pos).bind fun b' hb' => ensures_again hb'
  · exact ensures_mismatch _ _

/-- A list that has the property keeps it with one more element. -/
theorem forall_mem_append_singleton {α : Type} {p : α → Prop} {items : List α} {a : α}
    (hitems : ∀ x ∈ items, p x) (ha : p a) : ∀ x ∈ items ++ [a], p x := by
  intro x hx
  rcases List.mem_append.mp hx with hx | hx
  · exact hitems x hx
  · rw [List.mem_singleton.mp hx]
    exact ha

theorem ensures_resourceBlock : Ensures resourceBlock ResourceBlock.MasksKnown := by
  refine ensures_bind fun name => ensures_bind fun _ =>
    ensures_body ?_ (by simp [ResourceBlock.MasksKnown])
  intro block word pos hblock
  unfold resourceEntry
  split
  · exact ensures_fail _
  · refine ensures_bind fun binding => ?_
    refine (ensures_properties StageMask.isKnown_full).bind fun b hb => ?_
    exact ensures_pure (forall_mem_append_singleton hblock hb)

theorem ensures_bufferField (first : Token) :
    Ensures (bufferField first) fun f => ∀ m ∈ f.stages, m.IsKnown := by
  refine ensures_bind fun type => ensures_bind fun name => ensures_bind fun t => ?_
  split
  · refine ensures_bind fun _ => ensures_stageList.bind fun stages hstages => ?_
    exact ensures_bind fun _ => ensures_pure (by simpa using hstages)
  · exact ensures_pure (by simp)
  · exact ensures_mismatch _ _

theorem ensures_buffer : Ensures buffer Buffer.MasksKnown := by
  refine ensures_bind fun name => ensures_bind fun _ => ?_
  refine (ensures_loop (fun fields => Buffer.MasksKnown ⟨name, fields⟩) (fun fields t hfields => ?_)
    (by simp [Buffer.MasksKnown])).bind fun fields h => ensures_pure h
  split
  · exact ensures_done hfields
  · refine (ensures_bufferField t).bind fun field hfield => ?_
    exact ensures_again (forall_mem_append_singleton hfields hfield)

/-- An entry of a layout adds known masks only. -/
theorem ensures_layoutEntry {e : Effect} (he : e.MasksKnown) (word : String) (pos : Pos) :
    Ensures (layoutEntry e word pos) Effect.MasksKnown := by
  unfold layoutEntry
  split
  · exact ensures_bind fun layout => ensures_pure { he with }
  · refine ensures_bind fun _ => ensures_resourceBlock.bind fun block hblock => ensures_pure ?_
    exact { he with localResources := forall_mem_append_singleton he.localResources hblock }
  · refine ensures_bind fun _ => ensures_resourceBlock.bind fun block hblock => ensures_pure ?_
    exact { he with globalResources := forall_mem_append_singleton he.globalResources hblock }
  · refine ensures_resourceBlock.bind fun block hblock => ensures_pure ?_
    exact { he with localResources := forall_mem_append_singleton he.localResources hblock }
  · refine ensures_buffer.bind fun b hb => ensures_pure ?_
    exact { he with constantBuffers := forall_mem_append_singleton he.constantBuffers hb }
  · refine ensures_buffer.bind fun b hb => ensures_pure ?_
    exact { he with uniformBuffers := forall_mem_append_singleton he.uniformBuffers hb }
  · refine ensures_buffer.bind fun b hb => ensures_pure ?_
    exact { he with storageBuffers := forall_mem_append_singleton he.storageBuffers hb }
  · exact ensures_fail _

/-- So does an item, whatever stands in it. -/
theorem ensures_item {nested : Pos → Effect → Parser Effect}
    (hnested : ∀ pos e, e.MasksKnown → Ensures (nested pos e) Effect.MasksKnown) {e : Effect}
    (he : e.MasksKnown) (word : String) (pos : Pos) :
    Ensures (item nested e word pos) Effect.MasksKnown := by
  unfold item
  split
  · refine ensures_bind fun name => ?_
    have hopen : Ensures (do let opening ← expectSymbol .leftBrace
                             nested opening.pos { e with name }) Effect.MasksKnown :=
      ensures_bind fun opening => hnested opening.pos _ { he with }
    split
    · exact ensures_bind fun _ => hopen
    · exact hopen
  · exact ensures_bind fun _ => ensures_body (fun _ word pos h => ensures_layoutEntry h word pos) he
  · exact ensures_bind fun fragment => ensures_pure { he with }
  · exact ensures_bind fun states => ensures_pure { he with }
  · exact ensures_bind fun p => ensures_pure { he with }
  · exact ensures_bind fun _ => ensures_pure he

theorem ensures_itemsUpTo {last : Lexeme} {nested : Pos → Effect → Parser Effect}
    (hnested : ∀ pos e, e.MasksKnown → Ensures (nested pos e) Effect.MasksKnown) {e : Effect}
    (he : e.MasksKnown) : Ensures (itemsUpTo last nested e) Effect.MasksKnown := by
  refine ensures_loop Effect.MasksKnown (fun e t he => ?_) he
  split
  · exact ensures_done he
  · split
    · exact (ensures_item hnested he _ t.pos).bind fun e' he' => ensures_again he'
    · exact ensures_mismatch _ _

theorem ensures_blockItems (levels : Nat) (pos : Pos) {e : Effect} (he : e.MasksKnown) :
    Ensures (blockItems levels pos e) Effect.MasksKnown := by
  induction levels generalizing pos e with
  | zero => exact ensures_fail _
  | succ levels ih => exact ensures_itemsUpTo (fun pos _ he => ih pos he) he

theorem ensures_source : Ensures source Effect.MasksKnown := by
  refine ensures_itemsUpTo (fun pos _ he => ensures_blockItems nestingLimit pos he) ?_
  constructor <;> simp

end Grammar

/-- The masks of an effect that was read from a source. -/
theorem Effect.masksKnown_of_parse {text : String} {e : Effect}
    (parsed : (Effect.parse text).result = .ok e) : e.MasksKnown := by
  obtain ⟨r, hr, hok⟩ := Logged.result_andThen_eq_ok.mp parsed
  cases hok
  exact Grammar.ensures_source _ _ r hr

end Kfx
