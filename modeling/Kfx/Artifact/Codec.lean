import Kfx.Artifact.Error
import Kfx.Effect.Choice
import Kfx.Effect.Stage

/-!
# Codecs

A way to write values of a type as bytes together with the way to read them back. Words are
little-endian; texts and lists are preceded by their length as a word, options by a flag. Reading
keeps the offset for diagnostics.
-/
namespace Kfx

/-- The bytes not yet read and how many were read before them. -/
structure Input where
  offset : Nat
  rest : List UInt8
  deriving DecidableEq

abbrev Decoder := StateT Input (Except FormatError)

structure Codec (α : Type) where
  write : α → Except FormatError (List UInt8)
  read : Decoder α

namespace Codec

variable {α β : Type}

/-- The next `n` bytes, all or none. -/
def take (n : Nat) : Decoder (List UInt8) := fun input =>
  let taken := input.rest.take n
  if taken.length < n then .error (.truncated input.offset (n - taken.length))
  else .ok (taken, ⟨input.offset + n, input.rest.drop n⟩)

def offset : Decoder Nat := fun input => .ok (input.offset, input)

def fail (e : FormatError) : Decoder α := fun _ => .error e

/-- The four bytes of a word, lowest first. -/
def wordBytes (w : UInt32) : List UInt8 :=
  [w.toUInt8, (w >>> 8).toUInt8, (w >>> 16).toUInt8, (w >>> 24).toUInt8]

/-- The number four bytes spell, lowest first. -/
def ofWordBytes : List UInt8 → UInt32
  | [] => 0
  | b :: bs => b.toUInt32 ||| (ofWordBytes bs <<< 8)

def byte : Codec UInt8 where
  write b := .ok [b]
  read input :=
    match input.rest with
    | [] => .error (.truncated input.offset 1)
    | b :: rest => .ok (b, ⟨input.offset + 1, rest⟩)

def word : Codec UInt32 where
  write w := .ok (wordBytes w)
  read := return ofWordBytes (← take 4)

/-- A number that must be a word. -/
def count : Codec Nat where
  write n := if n < UInt32.size then .ok (wordBytes (UInt32.ofNat n)) else .error (.overflow n)
  read := return (← word.read).toNat

def seq (first : Codec α) (second : Codec β) : Codec (α × β) where
  write p := do return (← first.write p.1) ++ (← second.write p.2)
  read := do
    let a ← first.read
    let b ← second.read
    return (a, b)

def imap (c : Codec α) (out : α → β) (back : β → α) : Codec β where
  write b := c.write (back b)
  read := out <$> c.read

def readMany (c : Codec α) : Nat → Decoder (List α)
  | 0 => return []
  | n + 1 => do
    let a ← c.read
    let rest ← readMany c n
    return a :: rest

def writeMany (c : Codec α) : List α → Except FormatError (List UInt8)
  | [] => .ok []
  | a :: rest => do return (← c.write a) ++ (← writeMany c rest)

/-- A list: how many values, then the values. -/
def list (c : Codec α) : Codec (List α) where
  write items := do return (← count.write items.length) ++ (← c.writeMany items)
  read := do
    let n ← count.read
    readMany c n

def utf8 (s : String) : List UInt8 := s.toUTF8.data.toList

/-- A text: how many bytes, then the bytes. -/
def text : Codec String where
  write s := do return (← count.write (utf8 s).length) ++ utf8 s
  read := do
    let n ← count.read
    let start ← offset
    let bytes ← take n
    match String.fromUTF8? ⟨bytes.toArray⟩ with
    | some s => return s
    | none => fail (.badText start)

/-- A byte that not every value of stands for something. -/
def tagged (what : String) (tag : α → UInt8) (ofTag? : UInt8 → Option α) : Codec α where
  write a := .ok [tag a]
  read := do
    let start ← offset
    let b ← byte.read
    match ofTag? b with
    | some a => return a
    | none => fail (.badTag what b start)

def choice [Choice α] [DecidableEq α] : Codec α :=
  tagged (Choice.what α) Choice.tag Choice.ofTag?

def flag (what : String) : Codec Bool :=
  tagged what (fun b => if b then 1 else 0) fun n =>
    if n = 0 then some false else if n = 1 then some true else none

/-- A set of stages; a bit that belongs to no stage is refused. -/
def mask : Codec StageMask :=
  tagged "stage mask" StageMask.bits fun n =>
    if StageMask.IsKnown ⟨n⟩ then some ⟨n⟩ else none

/-- A flag, then the value if there is one. -/
def optional (c : Codec α) : Codec (Option α) where
  write
    | none => (flag "presence flag").write false
    | some a => do return (← (flag "presence flag").write true) ++ (← c.write a)
  read := do
    if ← (flag "presence flag").read then return some (← c.read)
    return none

end Codec

end Kfx
