import ModuleBundler.Text.Character
import ModuleBundler.Text.Cursor

/-!
# ModuleBundler — what lies between tokens

White space, line terminators, comments, and an interpreter line at the very
beginning of a text. Of all this only one thing matters to the grammar: whether
a line terminator was among it.
-/

namespace ModuleBundler

open Text

/-- What was passed on the way to a token: whether a line terminator was among
it, where it ends, and the comment that the text ended in, if it did. -/
structure Trivia where
  lineBreak : Bool
  stop : Cursor
  unclosed : Option Cursor
  deriving Repr, Inhabited

/-- Where a position between tokens lies: outside comments, in a comment up to
the end of the line, or in a comment up to its closing sign. Opening and closing
signs are two characters wide; `blockOpening` and `blockClosing` lie before the
second one. -/
inductive TriviaRegion where
  | outside
  | lineComment
  | blockOpening (opening : Cursor)
  | blockComment (opening : Cursor)
  | blockClosing
  deriving Repr, Inhabited

/-- The comment that is not closed when a text ends in a region. -/
def TriviaRegion.unclosed : TriviaRegion → Option Cursor
  | .blockOpening opening | .blockComment opening => some opening
  | _ => none

/-- Passes what lies between tokens, from a region on. A line terminator ends a
line comment; those inside a block comment count like any other. -/
def skipTrivia (region : TriviaRegion) (lineBreak : Bool) (offset : Nat) : List Char → Trivia
  | [] => ⟨lineBreak, ⟨offset, []⟩, region.unclosed⟩
  | c :: cs =>
    let next := offset + c.utf8Size
    match region with
    | .outside =>
      if c = '/' && cs.head? = some '/' then skipTrivia .lineComment lineBreak next cs
      else if c = '/' && cs.head? = some '*' then
        skipTrivia (.blockOpening ⟨offset, c :: cs⟩) lineBreak next cs
      else if isLineBreak c then skipTrivia .outside true next cs
      else if isBlank c then skipTrivia .outside lineBreak next cs
      else ⟨lineBreak, ⟨offset, c :: cs⟩, none⟩
    | .lineComment =>
      if isLineBreak c then skipTrivia .outside true next cs
      else skipTrivia .lineComment lineBreak next cs
    | .blockOpening opening => skipTrivia (.blockComment opening) lineBreak next cs
    | .blockComment opening =>
      if c = '*' && cs.head? = some '/' then skipTrivia .blockClosing lineBreak next cs
      else skipTrivia (.blockComment opening) (lineBreak || isLineBreak c) next cs
    | .blockClosing => skipTrivia .outside lineBreak next cs

/-- Passes an interpreter line, which stands at the beginning of a text and
begins with `#!`. Its line terminator is left. -/
def skipInterpreterLine (c : Cursor) : Cursor :=
  match c.offset, c.rest with
  | 0, '#' :: '!' :: _ => c.skipWhile (!isLineBreak ·)
  | _, _ => c

end ModuleBundler
