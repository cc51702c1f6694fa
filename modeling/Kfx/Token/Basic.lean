import Kfx.Source.Position
import Kfx.Number.Literal
import Kfx.Text.Quoted

/-! The tokens of an effect source: what they are and how diagnostics name them. -/
namespace Kfx

inductive Symbol
  | leftParen | rightParen | leftBrace | rightBrace | leftBracket | rightBracket
  | less | greater | equals | hash | comma | colon | semicolon | asterisk
  deriving DecidableEq

namespace Symbol

def char : Symbol → Char
  | leftParen => '('
  | rightParen => ')'
  | leftBrace => '\x7b'
  | rightBrace => '\x7d'
  | leftBracket => '['
  | rightBracket => ']'
  | less => '<'
  | greater => '>'
  | equals => '='
  | hash => '#'
  | comma => ','
  | colon => ':'
  | semicolon => ';'
  | asterisk => '*'

def all : List Symbol :=
  [leftParen, rightParen, leftBrace, rightBrace, leftBracket, rightBracket, less, greater,
   equals, hash, comma, colon, semicolon, asterisk]

end Symbol

/-- The sorts of token a diagnostic can ask for. -/
inductive TokenKind
  | symbol (s : Symbol)
  | word
  | quoted
  | number
  | endOfInput
  deriving DecidableEq

/-- How a sort of token reads after "expected". -/
def TokenKind.describe : TokenKind → String
  | symbol s => "`" ++ String.ofList [s.char] ++ "`"
  | word => "identifier"
  | quoted => "string"
  | number => "number"
  | endOfInput => "end of input"

/-- What a token says. The text of a quoted one is raw: without its quotes, escapes as written. -/
inductive Lexeme
  | symbol (s : Symbol)
  | word (text : String)
  | quoted (raw : String)
  | number (literal : Number.Literal)
  | endOfInput
  deriving DecidableEq

namespace Lexeme

def kind : Lexeme → TokenKind
  | symbol s => .symbol s
  | word _ => .word
  | quoted _ => .quoted
  | number _ => .number
  | endOfInput => .endOfInput

/-- The text a lexeme was read from, a quoted one without its quotes. -/
def text : Lexeme → String
  | symbol s => String.ofList [s.char]
  | word t => t
  | quoted raw => raw
  | number l => String.ofList l.text
  | endOfInput => ""

/-- How a lexeme reads after "found". -/
def shown : Lexeme → String
  | endOfInput => "end of input"
  | quoted raw => "\"" ++ raw ++ "\""
  | l => "`" ++ l.text ++ "`"

end Lexeme

structure Token where
  lexeme : Lexeme
  pos : Pos
  deriving DecidableEq

def Token.kind (t : Token) : TokenKind := t.lexeme.kind

def Token.shown (t : Token) : String := t.lexeme.shown

/-- The characters a raw quoted text stands for. After a backslash `n`, `t`, `r` and `0` are
controls and any other character is itself. -/
def unescape : List Char → List Char
  | [] => []
  | ['\\'] => []
  | '\\' :: c :: cs =>
    (if c = 'n' then '\n' else if c = 't' then '\t' else if c = 'r' then '\r'
      else if c = '0' then '\x00' else c) :: unescape cs
  | c :: cs => c :: unescape cs

/-- Why no token could be read. The last is no fault of a source: a text was to be cut out of it in
the middle of a character. -/
inductive LexFault
  | endOfInput
  | openText
  | openComment
  | stray (c : Char)
  | cut
  deriving DecidableEq

/-- A fault and its place. An open text or comment is placed where it was opened. -/
structure LexError where
  fault : LexFault
  pos : Pos
  deriving DecidableEq

/-- A block of raw text and the place of its opening brace. -/
structure Capture where
  text : String
  pos : Pos
  deriving DecidableEq

def LexError.message (e : LexError) : String :=
  e.pos.text ++ ": " ++
    match e.fault with
    | .endOfInput => "unexpected end of input"
    | .openText => "unterminated string literal"
    | .openComment => "unterminated block comment"
    | .stray c => "unexpected character " ++ Text.quoteChar c
    | .cut => "not a character boundary"

/-- Something that tokens and blocks of raw text are read from. Whatever is read leaves less to
read. -/
class TokenSource (S : Type) where
  next : S → Except LexError Token × S
  capture : S → Except LexError Capture × S
  size : S → Nat
  next_size_lt {s s' : S} {t : Token} : next s = (.ok t, s') → size s' < size s
  capture_size_lt {s s' : S} {b : Capture} : capture s = (.ok b, s') → size s' < size s

end Kfx
