import Kfx.Number.Shortest
import Kfx.Text.Quoted

/-!
# Faults of a settings file

What can be wrong with a settings file, and where. A column counts the bytes of its line up to and
including the one the fault is about.
-/
namespace Kfx.Settings

/-- What stands where something else was wanted. -/
inductive Found
  | null
  | bool (b : Bool)
  | unsigned (n : Nat)
  | signed (n : Int)
  | float (x : Number.Double)
  | text (s : String)
  | list
  | object
  deriving DecidableEq

def Found.shown : Found → String
  | null => "null"
  | bool b => s!"boolean `{b}`"
  | unsigned n => s!"integer `{n}`"
  | signed n => s!"integer `{n}`"
  | float x => s!"floating point `{x.compact}`"
  | text s => "string " ++ Text.quoteString s
  | list => "sequence"
  | object => "map"

inductive Fault
  | endInList
  | endInObject
  | endInText
  | endInValue
  | noColon
  | noListEnd
  | noObjectEnd
  | noIdent
  | noValue
  | badEscape
  | badNumber
  | numberRange
  | controlCharacter
  | keyNotText
  | loneSurrogate
  | shortEscape
  | trailingComma
  | trailingText
  | wrongType (found : Found) (expected : String)
  | wrongValue (found : Found) (expected : String)
  | repeatedKey (key : String)
  deriving DecidableEq

def Fault.reason : Fault → String
  | endInList => "EOF while parsing a list"
  | endInObject => "EOF while parsing an object"
  | endInText => "EOF while parsing a string"
  | endInValue => "EOF while parsing a value"
  | noColon => "expected `:`"
  | noListEnd => "expected `,` or `]`"
  | noObjectEnd => "expected `,` or `\x7d`"
  | noIdent => "expected ident"
  | noValue => "expected value"
  | badEscape => "invalid escape"
  | badNumber => "invalid number"
  | numberRange => "number out of range"
  | controlCharacter => "control character (\\u0000-\\u001F) found while parsing a string"
  | keyNotText => "key must be a string"
  | loneSurrogate => "lone leading surrogate in hex escape"
  | shortEscape => "unexpected end of hex escape"
  | trailingComma => "trailing comma"
  | trailingText => "trailing characters"
  | wrongType found expected => s!"invalid type: {found.shown}, expected {expected}"
  | wrongValue found expected => s!"invalid value: {found.shown}, expected {expected}"
  | repeatedKey key => s!"duplicate field `{key}`"

structure Place where
  line : Nat
  column : Nat
  deriving DecidableEq

/-- The place `bytes` bytes further on; a line feed starts a line. -/
def Place.past (p : Place) (c : Char) (bytes : Nat) : Place :=
  if c = '\n' then ⟨p.line + 1, 0⟩ else ⟨p.line, p.column + bytes⟩

structure Error where
  fault : Fault
  place : Place
  deriving DecidableEq

def Error.message (e : Error) : String :=
  s!"{e.fault.reason} at line {e.place.line} column {e.place.column}"

end Kfx.Settings
