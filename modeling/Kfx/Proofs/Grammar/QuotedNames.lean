import Kfx.Proofs.Grammar.RawText

/-!
# Names in quotes

Every text can be written between quotes: a backslash, a quote and a line feed are written as
escapes and every other character as itself, and reading gives the text back. What is read between
quotes is always decoded pair by pair, with no backslash left over at its end.
-/
namespace Kfx

open Grammar Grammar.Parser

/-- How a character is written between quotes. -/
def escapeChar (c : Char) : List Char :=
  if c = '\\' then ['\\', '\\']
  else if c = '"' then ['\\', '"']
  else if c = '\n' then ['\\', 'n']
  else [c]

def escape (cs : List Char) : List Char := cs.flatMap escapeChar

def quote (text : String) : List Char :=
  '"' :: (escape text.toList ++ ['"'])

/-- The character that a backslash and `c` stand for. -/
def unescapeChar : Char → Char
  | 'n' => '\n'
  | 't' => '\t'
  | 'r' => '\r'
  | '0' => '\x00'
  | c => c

theorem unescape_escaped (c : Char) (cs : List Char) :
    unescape ('\\' :: c :: cs) = unescapeChar c :: unescape cs := by
  rw [unescape, unescapeChar.eq_def]
  grind

theorem unescape_plain {c : Char} (hc : c ≠ '\\') (cs : List Char) :
    unescape (c :: cs) = c :: unescape cs := by
  rw [unescape]
  · exact fun h => absurd h hc
  · exact fun _ _ h => absurd h hc

/-- Of the two ways to write a character, one is plain and the other is an escape for it. -/
theorem escapeChar_cases (c : Char) :
    escapeChar c = [c] ∧ c ≠ '\\' ∧ c ≠ '"' ∧ c ≠ '\n' ∨
      ∃ d, escapeChar c = ['\\', d] ∧ unescapeChar d = c ∧ d ≠ '\n' := by
  unfold escapeChar
  split
  · next hc => exact .inr ⟨'\\', rfl, hc.symm, by decide⟩
  · next hslash =>
    split
    · next hc => exact .inr ⟨'"', rfl, hc.symm, by decide⟩
    · next hquote =>
      split
      · next hc => exact .inr ⟨'n', rfl, hc.symm, by decide⟩
      · next hfeed => exact .inl ⟨rfl, hslash, hquote, hfeed⟩

theorem unescape_escape (cs : List Char) : unescape (escape cs) = cs := by
  induction cs with
  | nil => rfl
  | cons c cs ih =>
    rw [escape, List.flatMap_cons, ← escape]
    rcases escapeChar_cases c with ⟨hplain, hslash, _⟩ | ⟨d, hescaped, hd, _⟩
    · rw [hplain, List.singleton_append, unescape_plain hslash, ih]
    · rw [hescaped, List.cons_append, List.singleton_append, unescape_escaped, hd, ih]

/-- What is written can stand between quotes. -/
theorem isRaw_escape (cs : List Char) : IsRaw (escape cs) := by
  induction cs with
  | nil => exact .nil
  | cons c cs ih =>
    rw [escape, List.flatMap_cons, ← escape]
    rcases escapeChar_cases c with ⟨hplain, hslash, hquote, hfeed⟩ | ⟨d, hescaped, _, hfeed⟩
    · rw [hplain]
      exact .plain hquote hfeed hslash ih
    · rw [hescaped]
      exact .escaped hfeed ih

theorem unescape_of_no_backslash {cs : List Char} (h : '\\' ∉ cs) : unescape cs = cs := by
  induction cs with
  | nil => rfl
  | cons c cs ih =>
    rw [List.mem_cons, not_or] at h
    rw [unescape_plain (Ne.symm h.1), ih h.2]

/-- The states of the loop that decodes a raw text: the characters it has put out and the text that
is left. There is no step from a backslash that nothing follows. -/
inductive Decodes (raw : List Char) : List Char → List Char → Prop
  | start : Decodes raw [] raw
  | plain {out c left} (h : Decodes raw out (c :: left)) (hc : c ≠ '\\') :
    Decodes raw (out ++ [c]) left
  | escaped {out c left} (h : Decodes raw out ('\\' :: c :: left)) :
    Decodes raw (out ++ [unescapeChar c]) left

namespace Decodes

variable {raw out left : List Char}

/-- A step splits no escape in two. -/
theorem isRaw_left (h : Decodes raw out left) (hraw : IsRaw raw) : IsRaw left := by
  induction h with
  | start => exact hraw
  | plain _ hc ih =>
    cases ih with
    | plain _ _ _ hleft => exact hleft
    | escaped _ _ => exact absurd rfl hc
  | escaped _ ih =>
    cases ih with
    | plain _ _ hslash _ => exact absurd rfl hslash
    | escaped _ hleft => exact hleft

theorem unescape_eq (h : Decodes raw out left) : unescape raw = out ++ unescape left := by
  induction h with
  | start => rfl
  | plain _ hc ih => rw [ih, unescape_plain hc, List.append_cons]
  | escaped _ ih => rw [ih, unescape_escaped, List.append_cons]

/-- Wherever the loop is, it comes to the end of a text that can stand between quotes. -/
theorem finish (h : Decodes raw out left) (hleft : IsRaw left) : Decodes raw (unescape raw) [] := by
  induction hleft generalizing out with
  | nil => simpa [h.unescape_eq, unescape] using h
  | plain _ _ hslash _ ih => exact ih (h.plain hslash)
  | escaped _ _ ih => exact ih h.escaped

end Decodes

theorem not_isRaw_backslash : ¬ IsRaw ['\\'] := by
  intro h
  cases h with
  | plain _ _ hslash _ => exact hslash rfl

theorem Lexer.isRaw_of_next {source : String} {lexer lexer' : Lexer source} {cs : List Char}
    {raw : String} {pos : Pos} (hahead : lexer.Ahead cs)
    (h : lexer.next = (.ok ⟨.quoted raw, pos⟩, lexer')) : IsRaw raw.toList := by
  obtain ⟨_, hnext, _⟩ := (answersAlike_tracks source).next_eq hahead.tracks h
  obtain ⟨r, hspells⟩ := Stream.spells_of_next hnext (by simp)
  cases hspells with
  | quoted hraw => rwa [String.toList_ofList]

theorem spells_quote (text : String) :
    (Lexeme.quoted (String.ofList (escape text.toList))).Spells (quote text) :=
  .quoted (isRaw_escape text.toList)

theorem isName_escape (text : String) :
    IsName (.quoted (String.ofList (escape text.toList))) text := by
  simp [← nameOf?_eq_some_iff, nameOf?, unescape_escape]

/-- An empty `Shader` block with a name in quotes. -/
def namedSource (text : String) : String :=
  String.ofList ("Shader".toList ++ ' ' :: (quote text ++ ' ' :: ['\x7b', '\x7d']))

theorem Stream.rest_ofString (source : String) : (Stream.ofString source).rest = source.toList :=
  rfl

theorem rest_namedSource (text : String) : (Stream.ofString (namedSource text)).rest =
    "Shader".toList ++ ' ' :: (quote text ++ ' ' :: ['\x7b', '\x7d']) := by
  rw [Stream.rest_ofString]
  unfold namedSource
  exact String.toList_ofList

/-- A `Shader` block keeps any text as its name. -/
theorem Effect.parse_namedSource (text : String) :
    (Effect.parse (namedSource text)).result = .ok { name := text } := by
  have hblank : IsGap false [' '] := .blank (by simp) .nil
  have hshader : (Lexeme.word "Shader").Spells "Shader".toList :=
    @Lexeme.Spells.word 'S' ['h', 'a', 'd', 'e', 'r'] (by decide) (by simp)
  obtain ⟨s₁, s₂, hword, hname, hrest₂, _, hs₂⟩ :=
    Stream.gives_heading rfl (rest_namedSource text) hshader (spells_quote text)
  have hopen := Stream.next_of_spells hs₂ hrest₂ hblank (.symbol .leftBrace) trivial
  have hpieces : Reads (Stream.ofString (namedSource text))
      ([.word "Shader", .token (.quoted (String.ofList (escape text.toList))), .symbol .leftBrace,
        .symbol .rightBrace] ++ [.token .endOfInput]) _ :=
    .cons hword (.cons hname (.cons (.token hopen) (.cons (.token rfl) (.single (.token rfl)))))
  have hshaderItem : IsItem (IsItems 63)
      [.word "Shader", .token (.quoted (String.ofList (escape text.toList))), .symbol .leftBrace,
        .symbol .rightBrace] [.effectName text] :=
    .shader (isName_escape text) (Joined.mk .nil)
  have hitems : IsItems 64 _ _ := Joined.mk (.cons hshaderItem .nil)
  rw [Effect.result_parse_stream_eq_ok]
  exact ⟨_, run_source_eq_ok.mpr ⟨_, _, hpieces, hitems, rfl⟩⟩

/-- Every text can be a name in quotes. Written between quotes it is one token that covers what is
written, and the token stands for the text; so the effect of an empty `Shader` block with that name
has that name. And whatever is read between quotes is decoded to its end: the loop never stands
before a backslash that nothing follows, what it has put out and the rest make up the decoded text,
and a text without a backslash is decoded as itself. -/
theorem Effect.every_text_is_a_quoted_name :
    (∀ (text source : String) (lexer : Lexer source) (rest : List Char), lexer.ended = false →
      lexer.Ahead (quote text ++ rest) →
      ∃ raw lexer', lexer.next = (.ok ⟨.quoted raw, lexer.pos⟩, lexer') ∧
        lexer.Behind (quote text) rest lexer' ∧ unescape raw.toList = text.toList) ∧
    (∀ text : String, (Effect.parse (namedSource text)).result = .ok { name := text }) ∧
    ∀ (source : String) (lexer lexer' : Lexer source) (cs : List Char) (raw : String) (pos : Pos),
      lexer.Ahead cs → lexer.next = (.ok ⟨.quoted raw, pos⟩, lexer') →
      (∀ out left, Decodes raw.toList out left →
        left ≠ ['\\'] ∧ unescape raw.toList = out ++ unescape left) ∧
      Decodes raw.toList (unescape raw.toList) [] ∧
      ('\\' ∉ raw.toList → unescape raw.toList = raw.toList) := by
  refine ⟨?written, Effect.parse_namedSource, ?read⟩
  case written =>
    intro text source lexer rest hlexer hahead
    obtain ⟨lexer', hnext, hbehind⟩ := Lexer.next_of_spells (w := []) hlexer hahead .nil
      (spells_quote text) trivial
    refine ⟨_, lexer', hnext, hbehind, ?_⟩
    rw [String.toList_ofList, unescape_escape]
  case read =>
    intro source lexer lexer' cs raw pos hahead hnext
    have hraw := Lexer.isRaw_of_next hahead hnext
    refine ⟨?_, Decodes.start.finish hraw, unescape_of_no_backslash⟩
    intro out left h
    refine ⟨?_, h.unescape_eq⟩
    rintro rfl
    exact not_isRaw_backslash (h.isRaw_left hraw)

/-- A backslash before a quote, a character of two bytes and a line feed. -/
def oddName : String := "\\\"é\n"

/-- An escape that stands for no control, and a text that ends in an escaped backslash. -/
def oddQuotation : String := "\"\\é\\\\\";"

theorem oddName_is_a_quoted_name :
    quote oddName = "\"\\\\\\\"é\\n\"".toList ∧
    (∃ raw lexer, (Lexer.start "\"\\\\\\\"é\\n\";").next = (.ok ⟨.quoted raw, ⟨1, 1⟩⟩, lexer) ∧
      lexer.Ahead [';'] ∧ unescape raw.toList = oddName.toList) ∧
    (Effect.parse (namedSource oddName)).result = .ok { name := oddName } ∧
    (Lexer.start oddQuotation).next =
      (.ok ⟨.quoted "\\é\\\\", ⟨1, 1⟩⟩, ⟨7, ⟨1, 7⟩, false⟩) ∧
    Decodes "\\é\\\\".toList ['é'] ['\\', '\\'] ∧
    unescape "\\é\\\\".toList = ['é'] ++ unescape ['\\', '\\'] := by
  obtain ⟨hwritten, hnamed, hread⟩ := Effect.every_text_is_a_quoted_name
  have hnext : (Lexer.start oddQuotation).next =
      (.ok ⟨.quoted "\\é\\\\", ⟨1, 1⟩⟩, ⟨7, ⟨1, 7⟩, false⟩) := by decide +kernel
  have hstep : Decodes "\\é\\\\".toList ['é'] ['\\', '\\'] := Decodes.start.escaped
  obtain ⟨raw, lexer, hquoted, hbehind, hraw⟩ :=
    hwritten oddName "\"\\\\\\\"é\\n\";" (.start _) [';'] rfl ⟨[], by decide, rfl⟩
  exact ⟨by decide, ⟨raw, lexer, hquoted, hbehind.ahead, hraw⟩, hnamed oddName, hnext, hstep,
    ((hread _ _ _ _ _ _ ⟨[], rfl, rfl⟩ hnext).1 _ _ hstep).2⟩

end Kfx
