import Kfx.Proofs.Artifact.RoundTrip
import Kfx.Proofs.Artifact.Trace

/-!
# Reading arbitrary bytes as an artifact

Every codec of the layout takes a byte of its own for each value, so lists cannot declare more work
than there are bytes, however large their counts are and however deep they are nested.
-/
namespace Kfx

open Codec Decoder

namespace Codec

/-- How a codec is put together. -/
inductive Form : {α : Type} → Codec α → Type 1
  | word : Form Codec.word
  | text : Form Codec.text
  | tagged {α : Type} (what : String) (tag : α → UInt8) (ofTag? : UInt8 → Option α) :
    Form (Codec.tagged what tag ofTag?)
  | seq {α β : Type} {c : Codec α} {d : Codec β} (first : Form c) (second : Form d) :
    Form (c.seq d)
  | imap {α β : Type} {c : Codec α} (form : Form c) (out : α → β) (back : β → α) :
    Form (c.imap out back)
  | list {α : Type} {c : Codec α} (element : Form c) : Form c.list
  | optional {α : Type} {c : Codec α} (value : Form c) : Form c.optional

namespace Form

def choice {α : Type} [Choice α] [DecidableEq α] : Form (Codec.choice : Codec α) :=
  .tagged _ _ _

def flag (what : String) : Form (Codec.flag what) :=
  .tagged _ _ _

def mask : Form Codec.mask :=
  .tagged _ _ _

def traced : {α : Type} → {c : Codec α} → Form c → Traced α
  | _, _, word => Traced.word
  | _, _, text => Traced.text
  | _, _, tagged what _ ofTag? => Traced.tagged what ofTag?
  | _, _, seq first second => do
    let a ← first.traced
    let b ← second.traced
    return (a, b)
  | _, _, imap form out _ => do return out (← form.traced)
  | _, _, list element => do Traced.many element.traced (← Traced.count)
  | _, _, optional value => do
    if ← Traced.flag "presence flag" then return some (← value.traced)
    return none

/-- The readers of the elements of all lists in a codec. -/
def elementReaders : {α : Type} → {c : Codec α} → Form c → List (Σ α : Type, Decoder α)
  | _, _, word | _, _, text | _, _, tagged _ _ _ => []
  | _, _, seq first second => first.elementReaders ++ second.elementReaders
  | _, _, imap form _ _ => form.elementReaders
  | _, _, list (c := c) element => ⟨_, c.read⟩ :: element.elementReaders
  | _, _, optional value => value.elementReaders

open Traced

variable {α : Type} {c : Codec α}

theorem follows (form : Form c) : Follows form.traced c.read := by
  induction form with
  | word => exact follows_word
  | text => exact follows_text
  | tagged what tag ofTag? => exact follows_tagged what tag ofTag?
  | seq first second ih ih' => exact ih.bind fun a => ih'.bind fun b => follows_pure (a, b)
  | imap form out back ih =>
    rw [imap_read]
    exact ih.bind fun a => follows_pure (out a)
  | list element ih => exact follows_count.bind ih.many
  | optional value ih =>
    rw [optional_read]
    refine (follows_tagged _ _ _).bind fun present => ?_
    cases present with
    | false => exact follows_pure none
    | true => exact ih.bind fun a => follows_pure (some a)

/-- Every codec takes a byte that no element is paid with: a list has its count. -/
theorem thrifty (form : Form c) : form.traced.Thrifty 1 := by
  induction form with
  | word => exact thrifty_word.weaken (by omega)
  | text => exact thrifty_text
  | tagged what tag ofTag? => exact thrifty_tagged what ofTag?
  | seq first second ih ih' =>
    have hboth : (seq first second).traced.Thrifty (1 + (1 + 0)) :=
      ih.bind fun a => ih'.bind fun b => thrifty_pure (a, b)
    exact hboth.weaken (by omega)
  | imap form out back ih => exact ih.bind fun a => thrifty_pure (out a)
  | list element ih =>
    have hlist : (list element).traced.Thrifty (4 + 0) := thrifty_count.bind ih.many
    exact hlist.weaken (by omega)
  | optional value ih =>
    have hvalue : ∀ present : Bool, Thrifty (do
        if present then return some (← value.traced)
        return none) 0 := by
      intro present
      cases present with
      | false => exact thrifty_pure none
      | true => exact (ih.bind fun a => thrifty_pure (some a)).weaken (by omega)
    exact (thrifty_tagged _ _).bind hvalue

/-- A value is never read from nothing. -/
theorem progress (form : Form c) {i j : Input} {a : α} (h : c.read.run i = .ok (a, j)) :
    i.offset < j.offset := by
  have stands : i.StandsIn (List.replicate i.offset 0 ++ i.rest) :=
    Input.standsIn_iff.mpr ⟨_, rfl, List.length_replicate.symm⟩
  obtain ⟨_, hpaid⟩ := (form.thrifty _ i stands).ok ((form.follows i).trans h)
  omega

/-- The elements of every list that a codec reads take at least one byte each. -/
theorem elementReaders_progress (form : Form c) :
    ∀ reader ∈ form.elementReaders, ∀ i a j, reader.2.run i = .ok (a, j) →
      i.offset < j.offset := by
  induction form with
  | word | text | tagged => simp [elementReaders]
  | seq first second ih ih' =>
    intro reader hreader
    rcases List.mem_append.mp hreader with hreader | hreader
    · exact ih reader hreader
    · exact ih' reader hreader
  | imap form out back ih => exact ih
  | list element ih =>
    intro reader hreader
    rcases List.mem_cons.mp hreader with rfl | hreader
    · exact fun i a j h => element.progress h
    · exact ih reader hreader
  | optional value ih => exact ih

end Form

end Codec

namespace Artifact

def dataTypeForm : Form dataType :=
  .imap (.seq .choice .word) _ _

def vertexAttributeForm : Form vertexAttribute :=
  .imap (.seq dataTypeForm <| .seq .word <| .seq .word .word) _ _

def vertexBindingForm : Form vertexBinding :=
  .imap (.seq .word <| .seq .word .choice) _ _

def vertexLayoutForm : Form vertexLayout :=
  .imap (.seq .text <| .seq (.list vertexAttributeForm) (.list vertexBindingForm)) _ _

def resourceBindingForm : Form resourceBinding :=
  .imap (.seq .text <| .seq .choice <| .seq .mask <| .seq .word <| .seq .word <|
    .seq (.optional .word) (.optional .word)) _ _

def resourceBlockForm : Form resourceBlock :=
  .imap (.seq .text (.list resourceBindingForm)) _ _

def bufferFieldForm : Form bufferField :=
  .imap (.seq dataTypeForm <| .seq .text (.optional .mask)) _ _

def bufferForm : Form buffer :=
  .imap (.seq .text (.list bufferFieldForm)) _ _

def blendModeForm : Form blendMode :=
  .imap (.seq (.flag "blend enable") <| .seq .choice <| .seq .choice <| .seq .choice <|
    .seq .choice <| .seq .choice .choice) _ _

def renderStateForm : Form renderState :=
  .imap (.seq .text <| .seq .choice <| .seq .choice <| .seq (.flag "depth write") <|
    .seq blendModeForm <| .seq .choice .word) _ _

def codeFragmentForm : Form codeFragment :=
  .imap (.seq .text .text) _ _

def linkForm : Form link :=
  .imap (.optional .word) _ _

def fragmentLinkForm : Form fragmentLink :=
  .imap (.optional .word) _ _

def stageForm : Form stage :=
  .imap (.seq .choice <| .seq fragmentLinkForm (.list .word)) _ _

def passForm : Form pass :=
  .imap (.seq .text <| .seq linkForm <| .seq linkForm <| .seq linkForm <| .seq linkForm
    (.list stageForm)) _ _

def effectForm : Form effect :=
  .imap (.seq .text <| .seq .text <| .seq (.list vertexLayoutForm) <|
    .seq (.list resourceBlockForm) <| .seq (.list resourceBlockForm) <| .seq (.list bufferForm) <|
    .seq (.list bufferForm) <| .seq (.list bufferForm) <| .seq (.list renderStateForm) <|
    .seq (.list codeFragmentForm) (.list passForm)) _ _

open Traced

def tracedVersion : Traced Effect := do
  let v ← Traced.word
  if v = version then effectForm.traced else Traced.fail (.badVersion v version)

def tracedEffect : Traced Effect := do
  let found ← step (take 4)
  if found = magic then tracedVersion else Traced.fail (.badMagic found)

theorem follows_readEffect : Follows tracedEffect readEffect := by
  rw [readEffect_eq]
  refine (follows_step _).bind fun found => follows_ite ?_ (follows_fail _)
  exact follows_word.bind fun v => follows_ite effectForm.follows (follows_fail _)

theorem thrifty_tracedEffect : tracedEffect.Thrifty 4 := by
  have hversion : tracedVersion.Thrifty (4 + 0) := by
    refine thrifty_word.bind fun v => thrifty_ite ?_ ?_
    · exact effectForm.thrifty.weaken (by omega)
    · apply thrifty_fail
      exact fun _ => trivial
  have heffect : tracedEffect.Thrifty (4 + 0) := by
    refine (thrifty_take 4).bind fun found => thrifty_ite ?_ ?_
    · exact hversion.weaken (by omega)
    · apply thrifty_fail
      exact fun _ => trivial
  exact heffect

/-- All that can go wrong is an index. -/
def OnlyIndices {α : Type} (x : Except FormatError α) : Prop :=
  ∀ e, x = .error e → ∃ what index length, e = .badIndex what index length

section

variable {α β : Type}

theorem onlyIndices_ok (a : α) : OnlyIndices (.ok a) := by
  intro e h
  cases h

theorem OnlyIndices.bind {x : Except FormatError α} {f : α → Except FormatError β}
    (hx : OnlyIndices x) (hf : ∀ a, OnlyIndices (f a)) : OnlyIndices (x >>= f) := by
  cases x with
  | error e' =>
    intro e h
    cases h
    exact hx e' rfl
  | ok a => exact hf a

theorem onlyIndices_mapM {f : α → Except FormatError β} (hf : ∀ a, OnlyIndices (f a))
    (items : List α) : OnlyIndices (items.mapM f) := by
  induction items with
  | nil => exact onlyIndices_ok []
  | cons a items ih =>
    rw [List.mapM_cons]
    exact (hf a).bind fun b => ih.bind fun bs => onlyIndices_ok (b :: bs)

theorem onlyIndices_forM {f : α → Except FormatError Unit} (hf : ∀ a, OnlyIndices (f a))
    (items : List α) : OnlyIndices (items.forM f) := by
  induction items with
  | nil => exact onlyIndices_ok ()
  | cons a items ih => exact (hf a).bind fun _ => ih

theorem onlyIndices_checked (what : String) (items : List α) (h : Handle) :
    OnlyIndices (checked what items h) := by
  intro e herror
  rw [checked] at herror
  cases hget : h.get? items with
  | some a =>
    rw [hget] at herror
    cases herror
  | none =>
    rw [hget] at herror
    cases herror
    exact ⟨what, h, items.length, rfl⟩

theorem onlyIndices_named [Named α] (what : String) (items : List α) (l : Link) :
    OnlyIndices (named what items l) := by
  rw [named]
  cases l.target with
  | none => exact onlyIndices_ok l
  | some h => exact (onlyIndices_checked what items h).bind fun a => onlyIndices_ok _

theorem onlyIndices_namedOptional [Named α] (what : String) (items : List α) (l : Option Link) :
    OnlyIndices (namedOptional what items l) := by
  cases l with
  | none => exact onlyIndices_ok none
  | some l =>
    rw [namedOptional, map_eq_pure_bind]
    exact (onlyIndices_named what items l).bind fun l => onlyIndices_ok (some l)

end

theorem onlyIndices_checkBinding (e : Effect) (b : ResourceBinding) :
    OnlyIndices (checkBinding e b) := by
  rw [checkBinding]
  cases b.buffer with
  | none => exact onlyIndices_ok ()
  | some h => exact (onlyIndices_checked _ _ h).bind fun _ => onlyIndices_ok ()

theorem onlyIndices_relink (e : Effect) : OnlyIndices (relink e) := by
  have hstage : ∀ s, OnlyIndices (relinkStage e s) := fun s =>
    (onlyIndices_named _ _ s.fragment).bind fun _ => onlyIndices_ok _
  have hpass : ∀ p, OnlyIndices (relinkPass e p) := fun p =>
    (onlyIndices_namedOptional _ _ _).bind fun _ => (onlyIndices_namedOptional _ _ _).bind fun _ =>
    (onlyIndices_namedOptional _ _ _).bind fun _ => (onlyIndices_namedOptional _ _ _).bind fun _ =>
    (onlyIndices_mapM hstage p.stages).bind fun _ => onlyIndices_ok _
  exact (onlyIndices_forM (onlyIndices_checkBinding e) _).bind fun _ =>
    (onlyIndices_mapM hpass e.passes).bind fun _ => onlyIndices_ok _

end Artifact

open Artifact

/-- What happens while an artifact is loaded, and what comes of it. -/
def Effect.deserializeTraced (bytes : List UInt8) : List ReadEvent × Except FormatError Effect :=
  let reading := tracedEffect ⟨0, bytes⟩
  (reading.events, do
    let (e, left) ← reading.result
    unless left.rest = [] do throw (.trailing left.rest.length)
    relink e)

theorem Effect.deserializeTraced_result (bytes : List UInt8) :
    (Effect.deserializeTraced bytes).2 = Effect.deserialize bytes := by
  rw [Effect.deserializeTraced, follows_readEffect]
  rfl

/-- Every error of reading an artifact is at an offset of its bytes. -/
theorem Effect.located_of_deserialize {bytes : List UInt8} {e : FormatError}
    (h : Effect.deserialize bytes = .error e) : e.LocatedIn bytes := by
  have stands : Input.StandsIn ⟨0, bytes⟩ bytes := ⟨Nat.zero_le _, rfl⟩
  have bounded := thrifty_tracedEffect bytes ⟨0, bytes⟩ stands
  cases hread : readEffect.run ⟨0, bytes⟩ with
  | error x =>
    rw [deserialize_of_error hread] at h
    cases h
    exact (bounded.error ((follows_readEffect _).trans hread)).2
  | ok r =>
    rw [deserialize_of_ok hread] at h
    by_cases hrest : r.2.rest = []
    · rw [if_pos hrest] at h
      obtain ⟨what, index, length, rfl⟩ := onlyIndices_relink r.1 e h
      trivial
    · rw [if_neg hrest] at h
      cases h
      trivial

/-- Whatever the bytes are, reading them stays inside them, every reader of elements takes a byte
for each, so that no more elements are read than there are bytes, and an error tells the place of
what is wrong. -/
theorem Effect.deserialize_bounded (bytes : List UInt8) :
    (Effect.deserializeTraced bytes).2 = Effect.deserialize bytes ∧
    (∀ place, .moved place ∈ (Effect.deserializeTraced bytes).1 → place.StandsIn bytes) ∧
    (∀ reader ∈ effectForm.elementReaders, ∀ i a j, reader.2.run i = .ok (a, j) →
      i.offset < j.offset) ∧
    (∀ start stop, .element start stop ∈ (Effect.deserializeTraced bytes).1 →
      start < stop ∧ stop ≤ bytes.length) ∧
    (Effect.deserializeTraced bytes).1.countP ReadEvent.isElement ≤ bytes.length ∧
    ∀ e, Effect.deserialize bytes = .error e → e.LocatedIn bytes := by
  have stands : Input.StandsIn ⟨0, bytes⟩ bytes := ⟨Nat.zero_le _, rfl⟩
  have bounded := thrifty_tracedEffect bytes ⟨0, bytes⟩ stands
  refine ⟨Effect.deserializeTraced_result bytes, fun place => bounded.moved,
    effectForm.elementReaders_progress, fun start stop => bounded.element, ?_,
    fun e => Effect.located_of_deserialize⟩
  cases hresult : (tracedEffect ⟨0, bytes⟩).result with
  | error e =>
    obtain ⟨hpaid, _⟩ := bounded.error hresult
    change (tracedEffect ⟨0, bytes⟩).elements ≤ bytes.length
    omega
  | ok r =>
    obtain ⟨hstands, hpaid⟩ := bounded.ok (a := r.1) (j := r.2) hresult
    have hinside := hstands.1
    change (tracedEffect ⟨0, bytes⟩).elements ≤ bytes.length
    omega

/-- It tells of the greatest count of vertex layouts, has one, and ends in the second. -/
def hugeCount : List UInt8 :=
  magic ++ wordBytes version ++ [0, 0, 0, 0, 0, 0, 0, 0, 255, 255, 255, 255] ++
    [0, 0, 0, 0, 0, 0, 0, 0, 0, 0, 0, 0] ++ [0, 0]

theorem Effect.deserialize_bounded_hugeCount :
    Effect.deserialize hugeCount = .error (.truncated 32 2) ∧
    FormatError.LocatedIn hugeCount (.truncated 32 2) ∧
    .element 20 32 ∈ (Effect.deserializeTraced hugeCount).1 := by
  have hfails : Effect.deserialize hugeCount = .error (.truncated 32 2) := by decide +kernel
  exact ⟨hfails, (Effect.deserialize_bounded hugeCount).2.2.2.2.2 _ hfails, by decide +kernel⟩

end Kfx
