import Kfx.Grammar.Error
import Kfx.Log

/-!
# Parsers

A parser is a term built from a few operations on tokens, and `exec` runs it on anything that tokens
can be read from. Running never leaves more to read than there was, and that is part of the type of
`exec`; each round of a loop reads a token, so a loop ends.
-/
namespace Kfx.Grammar

open TokenSource (size)

inductive Parser : Type → Type 1
  | pure {α : Type} (a : α) : Parser α
  | bind {α β : Type} (p : Parser α) (f : α → Parser β) : Parser β
  | fail {α : Type} (e : ParseError) : Parser α
  | say (level : LogLevel) (text : String) : Parser Unit
  /-- The next token. -/
  | token : Parser Token
  /-- The next block of raw text. -/
  | capture : Parser Capture
  /-- Takes the next token if it is the symbol; otherwise nothing is taken. -/
  | eat (symbol : Symbol) : Parser Bool
  /-- Reads token after token. `round` says what a token leads to: another round with a new state,
  or the end of the loop. -/
  | loop {σ τ : Type} (round : σ → Token → Parser (σ ⊕ τ)) (state : σ) : Parser τ

/-- What was read from `s`, and what is left behind it. -/
structure Reading {S : Type} [TokenSource S] (s : S) (α : Type) where
  value : α
  rest : S
  size_le : size rest ≤ size s

namespace Reading

variable {S : Type} [TokenSource S] {α β : Type} {s : S}

/-- A reading that takes nothing. -/
def stay (s : S) (a : α) : Reading s α :=
  ⟨a, s, Nat.le_refl _⟩

/-- A reading of what `r` left is a reading of the whole. -/
def extend (r : Reading s α) (q : Reading r.rest β) : Reading s β :=
  ⟨q.value, q.rest, Nat.le_trans q.size_le r.size_le⟩

end Reading

namespace Parser

variable {α β σ τ : Type}

instance : Monad Parser where
  pure := Parser.pure
  bind := Parser.bind

def again (state : σ) : Parser (σ ⊕ τ) := pure (.inl state)

def done (result : τ) : Parser (σ ⊕ τ) := pure (.inr result)

section

variable {S : Type} [TokenSource S]

def readToken (s : S) : Logged ParseError (Reading s Token) :=
  match h : TokenSource.next s with
  | (.error e, _) => .fail (.lex e)
  | (.ok t, s') => .ok ⟨t, s', Nat.le_of_lt (TokenSource.next_size_lt h)⟩

def readBlock (s : S) : Logged ParseError (Reading s Capture) :=
  match h : TokenSource.capture s with
  | (.error e, _) => .fail (.lex e)
  | (.ok b, s') => .ok ⟨b, s', Nat.le_of_lt (TokenSource.capture_size_lt h)⟩

/-- Looks at the next token and goes back to `s` if it is another one. -/
def readSymbol (symbol : Symbol) (s : S) : Logged ParseError (Reading s Bool) :=
  (readToken s).andThen fun r =>
    if r.value.lexeme = .symbol symbol then .ok ⟨true, r.rest, r.size_le⟩
    else .ok (.stay s false)

/-- Rounds of a loop until one ends it. -/
def iterate (round : σ → Token → (s : S) → Logged ParseError (Reading s (σ ⊕ τ))) (state : σ)
    (s : S) : Logged ParseError (Reading s τ) :=
  match h : TokenSource.next s with
  | (.error e, _) => .fail (.lex e)
  | (.ok t, s') =>
    (round state t s').andThen fun r =>
      have hlt : size r.rest < size s := Nat.lt_of_le_of_lt r.size_le (TokenSource.next_size_lt h)
      match r.value with
      | .inr result => .ok ⟨result, r.rest, Nat.le_of_lt hlt⟩
      | .inl state' =>
        (iterate round state' r.rest).andThen fun q =>
          .ok ⟨q.value, q.rest, Nat.le_of_lt (Nat.lt_of_le_of_lt q.size_le hlt)⟩
termination_by size s

def exec {α : Type} : Parser α → (s : S) → Logged ParseError (Reading s α)
  | .pure a, s => .ok (.stay s a)
  | .bind p f, s =>
    (p.exec s).andThen fun r => ((f r.value).exec r.rest).andThen fun q => .ok (r.extend q)
  | .fail e, _ => .fail e
  | .say level text, s => (Logged.say level text).andThen fun _ => .ok (.stay s ())
  | .token, s => readToken s
  | .capture, s => readBlock s
  | .eat symbol, s => readSymbol symbol s
  | .loop round state, s => iterate (fun state t => (round state t).exec) state s

end

end Parser

open Kfx.Grammar.Parser

def mismatch {α : Type} (expected : String) (t : Token) : Parser α :=
  fail (.unexpected expected t)

def expectSymbol (symbol : Symbol) : Parser Token := do
  let t ← token
  if t.lexeme = .symbol symbol then return t
  mismatch (TokenKind.symbol symbol).describe t

def expectWord : Parser (String × Pos) := do
  let t ← token
  match t.lexeme with
  | .word text => return (text, t.pos)
  | _ => mismatch TokenKind.word.describe t

def expectKeyword (keyword : String) : Parser Unit := do
  let t ← token
  unless t.lexeme = .word keyword do fail (.notKeyword keyword t)

/-- The name of a definition: a word, or any text in quotes. -/
def nameOf? (l : Lexeme) : Option String :=
  match l with
  | .word text => some text
  | .quoted raw => some (String.ofList (unescape raw.toList))
  | _ => none

def expectName : Parser String := do
  let t ← token
  match nameOf? t.lexeme with
  | some name => return name
  | none => mismatch "name" t

/-- A thirty-two bit count, named in diagnostics as `what`. -/
def expectCount (what : String) : Parser UInt32 := do
  let t ← token
  match t.lexeme with
  | .number l =>
    match l.toCount? with
    | some n => return n
    | none => fail (.badCount what t)
  | _ => mismatch s!"number ({what})" t

def expectNumber (what : String) : Parser Number.Double := do
  let t ← token
  match t.lexeme with
  | .number l => return l.value
  | _ => mismatch s!"number ({what})" t

/-- A word out of a table; `what` names the table in diagnostics. -/
def expectFrom {α : Type} (what : String) (table : String → Option α) : Parser α := do
  let (word, pos) ← expectWord
  match table word with
  | some a => return a
  | none => fail (.badValue what word pos)

end Kfx.Grammar
