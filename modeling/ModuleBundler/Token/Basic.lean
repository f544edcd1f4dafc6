import ModuleBundler.Text.Cursor
import ModuleBundler.Text.Span
import ModuleBundler.Token.Kind

/-!
# ModuleBundler — tokens

A token knows where it begins and where it stops, so the next token is read from
the token alone, and looking ahead needs no undoing.

* `Token.initial` — the state before the first token.
* `Token.text` — the source text of a token.
* `TokenFault.message` — the wording of what is wrong with an `unknown` token.
-/

namespace ModuleBundler

open Text (Cursor Span)

/-- What the tokenizer found wrong. -/
inductive TokenFault where
  | unclosedComment
  | invalidCharacter
  | digitExpected
  | wordAfterNumber
  | unclosedString
  | unclosedTemplate
  | unclosedRegex
  deriving DecidableEq, Repr, Inhabited

/-- The wording of a fault. -/
def TokenFault.message : TokenFault → String
  | .unclosedComment => "'*/' expected."
  | .invalidCharacter => "Invalid character."
  | .digitExpected => "Digit expected."
  | .wordAfterNumber =>
    "An identifier or keyword cannot immediately follow a numeric literal."
  | .unclosedString => "Unterminated string literal."
  | .unclosedTemplate => "Unterminated template literal."
  | .unclosedRegex => "Unterminated regular expression literal."

/-- What is noted about a token besides its kind. -/
structure TokenFlags where
  /-- A line terminator lies between the previous token and this one. -/
  lineBreak : Bool := false
  /-- A literal or comment that the text ends in. -/
  unterminated : Bool := false
  /-- A number with an exponent. -/
  scientific : Bool := false
  /-- A number with a radix sign. -/
  radix : Bool := false
  /-- A number with separators between its digits. -/
  separator : Bool := false
  deriving DecidableEq, Repr, Inhabited

/-- The flags as a bit set, the first flag lowest. -/
def TokenFlags.bits (f : TokenFlags) : Nat :=
  (if f.lineBreak then 1 else 0) + (if f.unterminated then 2 else 0) +
    (if f.scientific then 4 else 0) + (if f.radix then 8 else 0) +
    (if f.separator then 16 else 0)

/-- A token: its kind, where it lies, its value (the denoted text of a string
or template piece, the written text of a name, number or regular expression,
and nothing otherwise) and, for an `unknown` token, the fault. -/
structure Token where
  kind : TokenKind
  start : Cursor
  stop : Cursor
  value : String
  flags : TokenFlags
  fault : Option TokenFault
  deriving Repr, Inhabited

namespace Token

/-- Before the first token of a text. -/
def initial (text : String) : Token :=
  ⟨.unknown, Cursor.start text, Cursor.start text, "", {}, none⟩

/-- The byte offsets that a token covers. -/
def span (t : Token) : Span := ⟨t.start.offset, t.stop.offset⟩

/-- The source text of a token. -/
def text (t : Token) : String := t.start.textTo t.stop

/-- Whether a line terminator precedes the token. -/
def afterLineBreak (t : Token) : Bool := t.flags.lineBreak

end Token

end ModuleBundler
