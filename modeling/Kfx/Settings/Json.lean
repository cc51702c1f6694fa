import Kfx.Settings.Fault

/-!
# The JSON of settings

The parts of JSON that settings are written in. A reader goes through the text once, and the first
fault ends it; a fault is placed behind what was read, or at the character that is next.
-/
namespace Kfx.Settings

/-- The unread text and its place. -/
structure Cursor where
  rest : List Char
  place : Place

namespace Cursor

def ofString (s : String) : Cursor := ⟨s.toList, ⟨1, 0⟩⟩

def next (c : Cursor) : Cursor :=
  match c.rest with
  | [] => c
  | x :: r => ⟨r, c.place.past x x.utf8Size⟩

/-- The place of the first byte of the next character. -/
def peekPlace (c : Cursor) : Place :=
  match c.rest with
  | [] => c.place
  | x :: _ => c.place.past x 1

def skipBytes : Nat → List Char → Place → Cursor
  | _, [], p => ⟨[], p⟩
  | n, x :: r, p =>
    if n = 0 then ⟨x :: r, p⟩
    else if x.utf8Size ≤ n then skipBytes (n - x.utf8Size) r (p.past x x.utf8Size)
    else ⟨x :: r, p.past x n⟩

end Cursor

abbrev Reader := StateT Cursor (Except Error)

namespace Reader

variable {α : Type}

/-- A fault behind what was read. -/
def fail (f : Fault) : Reader α := fun c => .error ⟨f, c.place⟩

/-- A fault at the next character. -/
def failNext (f : Fault) : Reader α := fun c => .error ⟨f, c.peekPlace⟩

def peek : Reader (Option Char) := fun c => .ok (c.rest.head?, c)

def advance : Reader Unit := fun c => .ok ((), c.next)

def isBlank (c : Char) : Bool := c = ' ' || c = '\n' || c = '\t' || c = '\r'

/-- Behind the characters from the front that all satisfy `p`. -/
def dropWhile (p : Char → Bool) : List Char → Place → Cursor
  | [], place => ⟨[], place⟩
  | x :: r, place =>
    if p x then dropWhile p r (place.past x x.utf8Size) else ⟨x :: r, place⟩

/-- The characters from the front that all satisfy `p`. -/
def takeWhile (p : Char → Bool) : Reader (List Char) := fun c =>
  .ok (c.rest.takeWhile p, dropWhile p c.rest c.place)

/-- The next character that is no blank, not yet taken. -/
def peekBehindBlanks : Reader (Option Char) := do
  let _ ← takeWhile isBlank
  peek

/-- How much is left, as a bound for loops. -/
def remaining : Reader Nat := fun c => .ok (c.rest.length, c)

/-- The rest of a word that is already begun. -/
def restOfWord : List Char → Reader Unit
  | [] => pure ()
  | x :: xs => do
    match ← peek with
    | none => fail .endInValue
    | some c =>
      if c = x then
        advance
        restOfWord xs
      else failNext .noIdent

/-! ### Texts -/

def hexValue? (c : Char) : Option Nat :=
  if c.isDigit then some (c.toNat - '0'.toNat)
  else if 'a' ≤ c ∧ c ≤ 'f' then some (c.toNat - 'a'.toNat + 10)
  else if 'A' ≤ c ∧ c ≤ 'F' then some (c.toNat - 'A'.toNat + 10)
  else none

/-- Four hexadecimal digits. Without four more bytes the text ends too early. -/
def hexEscape : Reader Nat := fun c =>
  let bytes := c.rest.foldl (fun n x => n + x.utf8Size) 0
  let behind := Cursor.skipBytes 4 c.rest c.place
  if bytes < 4 then .error ⟨.endInText, (Cursor.skipBytes bytes c.rest c.place).place⟩
  else
    match (c.rest.take 4).mapM hexValue? with
    | some [a, b, d, e] => .ok (((a * 16 + b) * 16 + d) * 16 + e, behind)
    | _ => .error ⟨.badEscape, behind.place⟩

/-- The next character, which must be `want` to be part of a pair of escapes. -/
def pairMark (want : Char) : Reader Unit := do
  match ← peek with
  | none => fail .endInText
  | some c => if c = want then advance else failNext .shortEscape

/-- A character by its code, or two escapes that are the halves of one. -/
def unicodeEscape : Reader Char := do
  let n ← hexEscape
  if 0xdc00 ≤ n ∧ n ≤ 0xdfff then fail .loneSurrogate
  if n < 0xd800 ∨ 0xdbff < n then return Char.ofNat n
  pairMark '\\'
  pairMark 'u'
  let low ← hexEscape
  if low < 0xdc00 ∨ 0xdfff < low then fail .loneSurrogate
  return Char.ofNat ((n - 0xd800) * 0x400 + (low - 0xdc00) + 0x10000)

/-- The character an escape of one letter stands for. -/
def plainEscape? (c : Char) : Option Char :=
  if c = '"' ∨ c = '\\' ∨ c = '/' then some c
  else if c = 'b' then some '\x08'
  else if c = 'f' then some '\x0c'
  else if c = 'n' then some '\n'
  else if c = 'r' then some '\r'
  else if c = 't' then some '\t'
  else none

/-- What follows a backslash. A text that is `kept` must be made of whole characters. -/
def escape (kept : Bool) : Reader Char := do
  match ← peek with
  | none => fail .endInText
  | some c =>
    if c = 'u' then
      advance
      if kept then unicodeEscape else (do let _ ← hexEscape; return c)
    else
      match plainEscape? c with
      | some x => do advance; return x
      | none => failNext .badEscape

/-- A text behind its opening quote. A control character in a text that is not kept is placed
before it. -/
def textWithin (kept : Bool) : (bound : Nat) → Reader (List Char)
  | 0 => fail .endInText
  | bound + 1 => do
    match ← peek with
    | none => fail .endInText
    | some c =>
      if c = '"' then
        advance
        return []
      else if c = '\\' then
        advance
        let x ← escape kept
        return x :: (← textWithin kept bound)
      else if c.toNat < 0x20 then
        if kept then failNext .controlCharacter else fail .controlCharacter
      else
        advance
        return c :: (← textWithin kept bound)

def text : Reader String := do
  return String.ofList (← textWithin true ((← remaining) + 1))

def ignoreText : Reader Unit := do
  let _ ← textWithin false ((← remaining) + 1)

/-! ### Numbers -/

def maxWord : Nat := UInt64.size - 1

/-- Digits added to a number as long as it fits; the number, and how many went in. -/
def absorb : Nat → List Char → Nat × Nat
  | n, [] => (n, 0)
  | n, d :: ds =>
    let n' := 10 * n + (d.toNat - '0'.toNat)
    if maxWord < n' then (n, 0)
    else
      let (result, used) := absorb n' ds
      (result, used + 1)

def powerOfTen (k : Nat) : Number.Double := Number.Double.ofRatio false (Number.tenTo k) 1

/-- Divides by the largest power of ten until the rest of the exponent is one, or nothing is
left. -/
def scaleDown : (bound : Nat) → Number.Double → Nat → Number.Double
  | 0, x, _ => x
  | bound + 1, x, k =>
    if k ≤ 308 then x.div (powerOfTen k)
    else if x.units = 0 then x
    else scaleDown bound (x.div (powerOfTen 308)) (k - 308)

/-- `n * 10 ^ exponent` as a double, through a product or quotient of doubles. -/
def scaled (negative : Bool) (n : Nat) (exponent : Int) : Reader Found := do
  let x := Number.Double.ofRatio negative n 1
  if exponent < 0 then return .float (scaleDown 4 x exponent.natAbs)
  if exponent.toNat ≤ 308 then
    let y := x.mul (powerOfTen exponent.toNat)
    if y.isInfinite then fail .numberRange
    return .float y
  if x.units = 0 then return .float x
  fail .numberRange

/-- The digits of an exponent: the exponent, or none if it is out of reach. -/
def exponentDigits (n : Nat) (negative zero : Bool) : List Char → Reader (Option Nat)
  | [] => return some n
  | d :: ds => do
    advance
    let n' := 10 * n + (d.toNat - '0'.toNat)
    if n' < 0x80000000 then exponentDigits n' negative zero ds
    else if zero || negative then
      let _ ← takeWhile Char.isDigit
      return none
    else fail .numberRange

/-- An exponent behind its letter, and the number it makes of `n * 10 ^ start`. -/
def exponentOf (negative : Bool) (n : Nat) (start : Int) : Reader Found := do
  advance
  let down ← (do
    match ← peek with
    | some '+' => do advance; return false
    | some '-' => do advance; return true
    | _ => return false)
  match ← peek with
  | none => fail .endInValue
  | some d =>
    if d.isDigit then
      let digits := (← get).rest.takeWhile Char.isDigit
      match ← exponentDigits 0 down (n = 0) digits with
      | none => return .float ⟨negative, 0⟩
      | some e => scaled negative n (if down then start - e else start + e)
    else failNext .badNumber

/-- What may follow the whole digits of a number: `n` without its last `dropped` digits. -/
def numberTail (negative : Bool) (n dropped : Nat) : Reader Found := do
  match ← peek with
  | some '.' =>
    advance
    let digits ← takeWhile Char.isDigit
    if digits.isEmpty then
      match ← peek with
      | some _ => failNext .badNumber
      | none => failNext .endInValue
    let (n, used) := absorb n digits
    let start : Int := (dropped : Int) - used
    match ← peek with
    | some 'e' | some 'E' => exponentOf negative n start
    | _ => scaled negative n start
  | some 'e' | some 'E' => exponentOf negative n dropped
  | _ =>
    if dropped ≠ 0 then scaled negative n dropped
    else if !negative then return .unsigned n
    else if 0 < n ∧ n ≤ 0x8000000000000000 then return .signed (-(n : Int))
    else return .float (Number.Double.ofRatio true n 1)

def number (negative : Bool) : Reader Found := do
  match ← peek with
  | none => fail .endInValue
  | some '0' =>
    advance
    match ← peek with
    | some d => if d.isDigit then failNext .badNumber
    | none => pure ()
    numberTail negative 0 0
  | some d =>
    if d.isDigit then
      let digits ← takeWhile Char.isDigit
      let (n, used) := absorb 0 digits
      numberTail negative n (digits.length - used)
    else failNext .badNumber

/-- The digits that must follow an exponent's letter and sign. -/
def ignoreExponent : Reader Unit := do
  advance
  match ← peek with
  | some '+' | some '-' => advance
  | _ => pure ()
  match ← peek with
  | none => fail .badNumber
  | some d => unless d.isDigit do failNext .badNumber
  let _ ← takeWhile Char.isDigit

def ignoreNumber : Reader Unit := do
  match ← peek with
  | none => fail .badNumber
  | some '0' =>
    advance
    match ← peek with
    | some d => if d.isDigit then failNext .badNumber
    | none => pure ()
  | some d =>
    unless d.isDigit do failNext .badNumber
    let _ ← takeWhile Char.isDigit
  match ← peek with
  | some '.' =>
    advance
    let digits ← takeWhile Char.isDigit
    if digits.isEmpty then failNext .badNumber
    match ← peek with
    | some 'e' | some 'E' => ignoreExponent
    | _ => pure ()
  | some 'e' | some 'E' => ignoreExponent
  | _ => pure ()

/-! ### Values -/

/-- A value of the wrong type: it is read as far as it takes to name it. -/
def wrongType (expected : String) : Reader α := do
  match ← peek with
  | some 'n' => do advance; restOfWord "ull".toList; fail (.wrongType .null expected)
  | some 't' => do advance; restOfWord "rue".toList; fail (.wrongType (.bool true) expected)
  | some 'f' => do advance; restOfWord "alse".toList; fail (.wrongType (.bool false) expected)
  | some '"' => do
    advance
    let s ← text
    fail (.wrongType (.text s) expected)
  | some '[' => fail (.wrongType .list expected)
  | some '\x7b' => fail (.wrongType .object expected)
  | some c =>
    if c = '-' then
      advance
      let n ← number true
      fail (.wrongType n expected)
    else if c.isDigit then
      let n ← number false
      fail (.wrongType n expected)
    else failNext .noValue
  | none => failNext .noValue

def count (expected : String) : Reader Nat := do
  match ← peekBehindBlanks with
  | none => failNext .endInValue
  | some c =>
    if c = '-' || c.isDigit then
      if c = '-' then advance
      match ← number (c = '-') with
      | .unsigned n => return n
      | .signed n => fail (.wrongValue (.signed n) expected)
      | found => fail (.wrongType found expected)
    else wrongType expected

def string (expected : String) : Reader String := do
  match ← peekBehindBlanks with
  | none => failNext .endInValue
  | some '"' => do advance; text
  | some _ => wrongType expected

def boolean : Reader Bool := do
  match ← peekBehindBlanks with
  | none => failNext .endInValue
  | some 't' => do advance; restOfWord "rue".toList; return true
  | some 'f' => do advance; restOfWord "alse".toList; return false
  | some _ => wrongType "a boolean"

def optionalString (expected : String) : Reader (Option String) := do
  match ← peekBehindBlanks with
  | some 'n' => do advance; restOfWord "ull".toList; return none
  | _ => return some (← string expected)

/-! ### Values nobody asked for -/

/-- What an unfinished value is inside of. -/
inductive Frame
  | list | object
  deriving DecidableEq

def Frame.closing : Frame → Char
  | list => ']'
  | object => '\x7d'

def Frame.ended : Frame → Fault
  | list => .endInList
  | object => .endInObject

def Frame.unclosed : Frame → Fault
  | list => .noListEnd
  | object => .noObjectEnd

/-- What comes next while a value is looked over. -/
inductive Expecting
  | value
  /-- A value has just ended. -/
  | more
  /-- A list or an object has just begun. -/
  | first
  deriving DecidableEq

/-- A key and its colon, if the value is inside an object. -/
def ignoreKey : Frame → Reader Unit
  | .list => pure ()
  | .object => do
    match ← peekBehindBlanks with
    | some '"' => advance
    | some _ => failNext .keyNotText
    | none => failNext .endInObject
    ignoreText
    match ← peekBehindBlanks with
    | some ':' => advance
    | some _ => failNext .noColon
    | none => failNext .endInObject

/-- A value without an inside. -/
def ignoreSimple (c : Char) : Reader Unit := do
  if c = 'n' then do advance; restOfWord "ull".toList
  else if c = 't' then do advance; restOfWord "rue".toList
  else if c = 'f' then do advance; restOfWord "alse".toList
  else if c = '-' then do advance; ignoreNumber
  else if c.isDigit then ignoreNumber
  else if c = '"' then do advance; ignoreText
  else failNext .noValue

/-- Looks over a value inside `frames`, the innermost first. Every second step takes a character, so
twice the remaining text bounds the steps. -/
def ignoreWithin : (bound : Nat) → Expecting → List Frame → Reader Unit
  | 0, _, _ => fail .endInValue
  | bound + 1, .value, frames => do
    match ← peekBehindBlanks with
    | none => failNext .endInValue
    | some '[' => do advance; ignoreWithin bound .first (.list :: frames)
    | some '\x7b' => do advance; ignoreWithin bound .first (.object :: frames)
    | some c => do ignoreSimple c; ignoreWithin bound .more frames
  | _ + 1, _, [] => pure ()
  | bound + 1, expecting, frame :: frames => do
    match ← peekBehindBlanks with
    | none => failNext frame.ended
    | some c =>
      if c = frame.closing then
        advance
        ignoreWithin bound .more frames
      else if expecting = .first then
        ignoreKey frame
        ignoreWithin bound .value (frame :: frames)
      else if c = ',' then
        advance
        ignoreKey frame
        ignoreWithin bound .value (frame :: frames)
      else failNext frame.unclosed

def ignoreValue : Reader Unit := do
  ignoreWithin (2 * (← remaining) + 2) .value []

end Reader

end Kfx.Settings
