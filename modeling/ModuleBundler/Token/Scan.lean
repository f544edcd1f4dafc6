import ModuleBundler.Token.Basic
import ModuleBundler.Token.Numeral
import ModuleBundler.Token.Quoted
import ModuleBundler.Token.Trivia

/-!
# ModuleBundler — reading tokens

`Token.next` reads the token after a token. Two kinds depend on where they
stand, and the grammar asks to read them again: a slash that opens a regular
expression (`Token.asRegex`) and a closing brace that goes on with a template
(`Token.asTemplate`).
-/

namespace ModuleBundler

open Text

-- ---------------------------------------------------------------------------
-- Punctuation
-- ---------------------------------------------------------------------------

namespace Punctuator

/-- The punctuator that begins with a character, told by up to three characters behind
it, and how many characters it takes. Before a digit, `?.` is a question mark and a
fraction. -/
def read? (ch : Char) (next₁ next₂ next₃ : Option Char) : Option (Punctuator × Nat) :=
  match ch with
  | '{' => some (.openBrace, 1)
  | '}' => some (.closeBrace, 1)
  | '(' => some (.openParen, 1)
  | ')' => some (.closeParen, 1)
  | '[' => some (.openBracket, 1)
  | ']' => some (.closeBracket, 1)
  | ';' => some (.semicolon, 1)
  | ',' => some (.comma, 1)
  | ':' => some (.colon, 1)
  | '~' => some (.tilde, 1)
  | '@' => some (.atSign, 1)
  | '/' =>
    match next₁ with
    | some '=' => some (.slashAssign, 2)
    | _ => some (.slash, 1)
  | '.' =>
    match next₁, next₂ with
    | some '.', some '.' => some (.ellipsis, 3)
    | _, _ => some (.dot, 1)
  | '?' =>
    match next₁, next₂ with
    | some '?', some '=' => some (.coalesceAssign, 3)
    | some '?', _ => some (.coalesce, 2)
    | some '.', next => if next.any isDigit then some (.question, 1) else some (.questionDot, 2)
    | _, _ => some (.question, 1)
  | '=' =>
    match next₁, next₂ with
    | some '=', some '=' => some (.strictEqual, 3)
    | some '=', _ => some (.equal, 2)
    | some '>', _ => some (.arrow, 2)
    | _, _ => some (.assign, 1)
  | '!' =>
    match next₁, next₂ with
    | some '=', some '=' => some (.strictNotEqual, 3)
    | some '=', _ => some (.notEqual, 2)
    | _, _ => some (.bang, 1)
  | '+' =>
    match next₁ with
    | some '+' => some (.increment, 2)
    | some '=' => some (.plusAssign, 2)
    | _ => some (.plus, 1)
  | '-' =>
    match next₁ with
    | some '-' => some (.decrement, 2)
    | some '=' => some (.minusAssign, 2)
    | _ => some (.minus, 1)
  | '*' =>
    match next₁, next₂ with
    | some '*', some '=' => some (.powerAssign, 3)
    | some '*', _ => some (.power, 2)
    | some '=', _ => some (.starAssign, 2)
    | _, _ => some (.star, 1)
  | '%' =>
    match next₁ with
    | some '=' => some (.percentAssign, 2)
    | _ => some (.percent, 1)
  | '&' =>
    match next₁, next₂ with
    | some '&', some '=' => some (.andAssign, 3)
    | some '&', _ => some (.logicalAnd, 2)
    | some '=', _ => some (.ampersandAssign, 2)
    | _, _ => some (.ampersand, 1)
  | '|' =>
    match next₁, next₂ with
    | some '|', some '=' => some (.orAssign, 3)
    | some '|', _ => some (.logicalOr, 2)
    | some '=', _ => some (.barAssign, 2)
    | _, _ => some (.bar, 1)
  | '^' =>
    match next₁ with
    | some '=' => some (.caretAssign, 2)
    | _ => some (.caret, 1)
  | '<' =>
    match next₁, next₂ with
    | some '<', some '=' => some (.shiftLeftAssign, 3)
    | some '<', _ => some (.shiftLeft, 2)
    | some '=', _ => some (.lessEqual, 2)
    | _, _ => some (.less, 1)
  | '>' =>
    match next₁, next₂, next₃ with
    | some '>', some '>', some '=' => some (.shiftRightZeroAssign, 4)
    | some '>', some '>', _ => some (.shiftRightZero, 3)
    | some '>', some '=', _ => some (.shiftRightAssign, 3)
    | some '>', _, _ => some (.shiftRight, 2)
    | some '=', _, _ => some (.greaterEqual, 2)
    | _, _, _ => some (.greater, 1)
  | _ => none

/-- The punctuator ahead, and how many characters it takes. -/
def ahead? : List Char → Option (Punctuator × Nat)
  | [] => none
  | ch :: cs => read? ch cs[0]? cs[1]? cs[2]?

end Punctuator

-- ---------------------------------------------------------------------------
-- One token
-- ---------------------------------------------------------------------------

/-- The token of a string. -/
def scanString (flags : TokenFlags) (c : Cursor) (quote : Char) : Token :=
  let body := c.advance
  let q := readString quote 0 body.offset "" body.rest
  if q.closed then ⟨.string, c, q.stop, q.value, flags, none⟩
  else ⟨.unknown, c, q.stop, q.value, { flags with unterminated := true }, some .unclosedString⟩

/-- The token of a piece of a template that begins at `c` and whose characters
begin at `body`. -/
def scanTemplate (isFirst : Bool) (flags : TokenFlags) (c body : Cursor) : Token :=
  let p := readTemplate 0 body.offset "" body.rest
  match p.ending with
  | .backtick =>
    ⟨if isFirst then .templateWhole else .templateTail, c, p.stop, p.value, flags, none⟩
  | .substitution =>
    ⟨if isFirst then .templateHead else .templateMiddle, c, p.stop, p.value, flags, none⟩
  | .endOfText =>
    ⟨.unknown, c, p.stop, p.value, { flags with unterminated := true }, some .unclosedTemplate⟩

/-- The token of a punctuator, or of a character that begins no token. -/
def scanPunctuator (flags : TokenFlags) (c : Cursor) : Token :=
  match Punctuator.ahead? c.rest with
  | some (p, length) => ⟨.punct p, c, c.drop length, "", flags, none⟩
  | none => ⟨.unknown, c, c.advance, "", flags, some .invalidCharacter⟩

/-- The token of a word: a keyword or a name. -/
def scanWord (flags : TokenFlags) (c : Cursor) : Token :=
  let stop := c.skipWhile isNamePart
  let value := c.textTo stop
  ⟨.ofWord value, c, stop, value, flags, none⟩

/-- The token of a private name, which begins with `#`. -/
def scanPrivateName (flags : TokenFlags) (c : Cursor) : Token :=
  let name := c.advance
  if name.peek?.any isNameStart then
    let stop := name.skipWhile isNamePart
    ⟨.privateName, c, stop, c.textTo stop, flags, none⟩
  else ⟨.unknown, c, name, "", flags, some .invalidCharacter⟩

/-- The token that begins at a position. -/
def scanAt (flags : TokenFlags) (c : Cursor) : Token :=
  match c.rest with
  | [] => ⟨.endOfFile, c, c, "", flags, none⟩
  | ch :: cs =>
    if ch = '"' || ch = '\'' then scanString flags c ch
    else if ch = '`' then scanTemplate true flags c c.advance
    else if isDigit ch || (ch = '.' && cs.head?.any isDigit) then scanNumber flags c
    else if ch = '#' then scanPrivateName flags c
    else if isNameStart ch then scanWord flags c
    else scanPunctuator flags c

namespace Token

/-- The token after a token. At the end of the text this is `endOfFile`, again
and again. -/
def next (t : Token) : Token :=
  let ahead := skipInterpreterLine t.stop
  let trivia := skipTrivia .outside false ahead.offset ahead.rest
  let flags : TokenFlags := { lineBreak := trivia.lineBreak }
  match trivia.unclosed with
  | some opening =>
    ⟨.unknown, opening, trivia.stop, "", { flags with unterminated := true },
      some .unclosedComment⟩
  | none => scanAt flags trivia.stop

-- ---------------------------------------------------------------------------
-- Reading again
-- ---------------------------------------------------------------------------

/-- The end of a regular expression's body, after its closing slash. Within
brackets a slash does not close it, and a backslash takes the next character
along. Without a closing slash on the line, the position that was reached. -/
def regexBody (inClass escaped : Bool) (offset : Nat) : List Char → Except Cursor Cursor
  | [] => .error ⟨offset, []⟩
  | c :: cs =>
    let next := offset + c.utf8Size
    if isLineBreak c then .error ⟨offset, c :: cs⟩
    else if escaped then regexBody inClass false next cs
    else
      match c with
      | '\\' => regexBody inClass true next cs
      | '[' => regexBody true false next cs
      | ']' => regexBody false false next cs
      | '/' => if inClass then regexBody inClass false next cs else .ok ⟨next, cs⟩
      | _ => regexBody inClass false next cs

/-- Reads a slash, or a slash with an equals sign, as the beginning of a regular
expression. Other tokens stay as they are. -/
def asRegex (t : Token) : Token :=
  if t.kind = .punct .slash || t.kind = .punct .slashAssign then
    let body := t.start.advance
    match regexBody false false body.offset body.rest with
    | .ok slash =>
      let stop := slash.skipWhile isNamePart
      { t with kind := .regex, stop := stop, value := t.start.textTo stop }
    | .error stop =>
      { t with
        kind := .unknown, stop := stop, flags := { t.flags with unterminated := true }
        fault := some .unclosedRegex }
  else t

/-- Reads a closing brace as the end of a substitution. Other tokens stay as
they are. -/
def asTemplate (t : Token) : Token :=
  if t.kind = .punct .closeBrace then scanTemplate false t.flags t.start t.start.advance
  else t

end Token

/-- The tokens of a text, up to and with the first `endOfFile`. There are at
most as many others as there are bytes. -/
def tokens (text : String) : Array Token :=
  go (text.utf8ByteSize + 1) (Token.initial text).next #[]
where
  go : Nat → Token → Array Token → Array Token
    | 0, t, acc => acc.push t
    | fuel + 1, t, acc =>
      if t.kind = .endOfFile then acc.push t else go fuel t.next (acc.push t)

end ModuleBundler
