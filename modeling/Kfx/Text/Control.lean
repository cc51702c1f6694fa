/-!
# The visible part of a text

The part that is left without control characters and without the sequences that a terminal acts on.
-/
namespace Kfx.Text

/-- The sequence that a character stands in. -/
inductive Control
  /-- None. -/
  | plain
  /-- Behind an escape character. -/
  | escape
  /-- Further on behind an escape character, before the character that ends the sequence. -/
  | escapeMiddle
  /-- Behind an escape character and a bracket, up to a letter. -/
  | parameters
  /-- The head of a device control string. -/
  | stringHead
  /-- A string, up to its terminator. -/
  | string
  /-- A command to the system. A bell ends it. -/
  | command
  deriving DecidableEq

def within (low high : Nat) (c : Char) : Bool :=
  low ≤ c.toNat && c.toNat ≤ high

/-- The terminator of a string is one byte, which counts inside of a wide character too. -/
def hasTerminator (c : Char) : Bool :=
  (String.utf8EncodeChar c).contains 0x9c

/-- Where the next character stands. An escape character starts a sequence anywhere, and cancel and
substitute end one anywhere. -/
def Control.next (s : Control) (c : Char) : Control :=
  if c = '\x1b' then .escape
  else if c = '\x18' ∨ c = '\x1a' then .plain
  else
    match s with
    | plain => .plain
    | escape =>
      if c = '[' then .parameters
      else if c = ']' then .command
      else if c = 'P' then .stringHead
      else if c = 'X' ∨ c = '^' ∨ c = '_' then .string
      else if within 0x20 0x2f c then .escapeMiddle
      else if within 0x30 0x7e c then .plain
      else .escape
    | escapeMiddle => if within 0x30 0x7e c then .plain else .escapeMiddle
    | parameters => if within 0x40 0x7e c then .plain else .parameters
    | stringHead => if within 0x40 0x7e c then .string else .stringHead
    | string => if hasTerminator c then .plain else .string
    | command => if c = '\x07' then .plain else .command

/-- The control characters that move on the page. -/
def isBreak (c : Char) : Bool :=
  c = '\t' || c = '\n' || c = '\x0c' || c = '\r'

/-- The characters that are visible where they stand. Only strings and commands hide a break. -/
def Control.shows : Control → Char → Bool
  | plain, c => isBreak c || (0x20 ≤ c.toNat && c ≠ '\x7f')
  | escape, c => isBreak c
  | escapeMiddle, c => isBreak c
  | parameters, c => isBreak c
  | _, _ => false

/-- The visible part of the rest of a text. A break interrupts a sequence: what follows it is plain
text up to the next control character, with which the sequence goes on. A wide character in such
text ends the sequence. `interrupted` says that plain text is being read. -/
def visibleFrom : (s : Control) → (interrupted : Bool) → List Char → List Char
  | _, _, [] => []
  | s, interrupted, c :: cs =>
    if (if interrupted then Control.plain else s).shows c then
      c :: visibleFrom (if 0x80 ≤ c.toNat then .plain else s) true cs
    else visibleFrom (s.next c) false cs

def visible (cs : List Char) : List Char :=
  visibleFrom .plain false cs

end Kfx.Text
