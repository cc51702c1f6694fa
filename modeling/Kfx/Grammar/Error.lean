import Kfx.Token.Basic
import Kfx.Number.Shortest

/-! Why a source is not an effect. The first mismatch ends the reading. -/
namespace Kfx

inductive ParseError
  | lex (e : LexError)
  | unexpected (expected : String) (found : Token)
  | notKeyword (keyword : String) (found : Token)
  | unknownWord (context word : String) (pos : Pos)
  | badValue (what value : String) (pos : Pos)
  | negativeLength (value : Number.Double) (pos : Pos)
  | openArray (found : Token)
  | badCount (what : String) (found : Token)
  | duplicateLink (what pass : String) (pos : Pos)
  | tooDeep (limit : Nat) (pos : Pos)
  deriving DecidableEq

namespace ParseError

def pos : ParseError → Pos
  | lex e => e.pos
  | unexpected _ found | notKeyword _ found | openArray found | badCount _ found => found.pos
  | unknownWord _ _ pos | badValue _ _ pos | negativeLength _ pos | duplicateLink _ _ pos
  | tooDeep _ pos => pos

def reason : ParseError → String
  | lex e => e.message
  | unexpected expected found => s!"expected {expected}, found {found.shown}"
  | notKeyword keyword found => s!"expected keyword `{keyword}`, found `{found.shown}`"
  | unknownWord context word _ => s!"unknown identifier `{word}` in {context}"
  | badValue what value _ => s!"`{value}` is not a valid {what}"
  | negativeLength value _ => s!"array size must not be negative, found {value.positional}"
  | openArray found => s!"unterminated array suffix, expected `]`, found {found.shown}"
  | badCount what found => s!"expected a non-negative integer for {what}, found {found.shown}"
  | duplicateLink what pass _ => s!"pass `{pass}` binds {what} more than once"
  | tooDeep limit _ => s!"Shader blocks nested deeper than {limit}"

def message : ParseError → String
  | lex e => e.message
  | e => e.pos.text ++ ": " ++ e.reason

end ParseError

end Kfx
