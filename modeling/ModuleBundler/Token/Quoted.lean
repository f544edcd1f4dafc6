import ModuleBundler.Text.Character
import ModuleBundler.Text.Cursor

/-!
# ModuleBundler — quoted text

Strings and templates denote a text that is not always the one written: escapes
stand for other characters or for nothing. A malformed escape denotes nothing
and is no fault.

* `escape` — what an escape denotes, and how many characters it takes.
* `readString` — a string up to its closing quote.
* `readTemplate` — a piece of a template up to a substitution or its end.
-/

namespace ModuleBundler

open Text

-- ---------------------------------------------------------------------------
-- Escapes
-- ---------------------------------------------------------------------------

/-- An escape, its backslash aside: the character it denotes, if any, and the
number of characters it is written with. -/
structure Escape where
  value : Option Char
  length : Nat
  deriving Repr, Inhabited

/-- The number that hexadecimal digits denote. -/
def hexNumber (digits : List Char) : Nat := digits.foldl (fun n d => 16 * n + hexValue d) 0

/-- The character of a code point that was written in hexadecimal, when there
are digits enough and the code point is one of a character. -/
def charOfHex (least : Nat) (digits : List Char) : Option Char :=
  let n := hexNumber digits
  if digits.length < least then none
  else if n.isValidChar then some (Char.ofNat n)
  else none

/-- At most `most` hexadecimal digits. -/
def hexDigits (most : Nat) (cs : List Char) : List Char := (cs.take most).takeWhile isHexDigit

/-- The escape that follows a backslash. -/
def escape : List Char → Escape
  | [] => ⟨none, 0⟩
  | 'n' :: _ => ⟨some '\n', 1⟩
  | 't' :: _ => ⟨some '\t', 1⟩
  | 'r' :: _ => ⟨some '\r', 1⟩
  | 'b' :: _ => ⟨some '\x08', 1⟩
  | 'f' :: _ => ⟨some '\x0c', 1⟩
  | 'v' :: _ => ⟨some '\x0b', 1⟩
  | '0' :: cs => if cs.head?.any isDigit then ⟨some '0', 1⟩ else ⟨some '\x00', 1⟩
  | 'x' :: cs =>
    let digits := hexDigits 2 cs
    ⟨charOfHex 2 digits, 1 + digits.length⟩
  | 'u' :: '{' :: cs =>
    let digits := hexDigits 6 cs
    let closing := if (cs.drop digits.length).head? = some '}' then 1 else 0
    ⟨charOfHex 1 digits, 2 + digits.length + closing⟩
  | 'u' :: cs =>
    let digits := hexDigits 4 cs
    ⟨charOfHex 4 digits, 1 + digits.length⟩
  | '\r' :: '\n' :: _ => ⟨none, 2⟩
  | c :: _ => ⟨if isLineBreak c then none else some c, 1⟩

/-- Adds the character that an escape denotes. -/
def Escape.pushTo (e : Escape) (text : String) : String :=
  match e.value with
  | some c => text.push c
  | none => text

-- ---------------------------------------------------------------------------
-- Strings
-- ---------------------------------------------------------------------------

/-- Quoted text that was read: whether its end was found, the text it denotes,
and where it stops. -/
structure Quoted where
  closed : Bool
  value : String
  stop : Cursor
  deriving Repr, Inhabited

/-- Reads a string after its opening quote. The next `skip` characters belong
to an escape that was read already. LF and CR may not occur unescaped. -/
def readString (quote : Char) (skip : Nat) (offset : Nat) (value : String) :
    List Char → Quoted
  | [] => ⟨false, value, ⟨offset, []⟩⟩
  | c :: cs =>
    let next := offset + c.utf8Size
    match skip with
    | k + 1 => readString quote k next value cs
    | 0 =>
      if c = quote then ⟨true, value, ⟨next, cs⟩⟩
      else if c = '\\' then
        let e := escape cs
        readString quote e.length next (e.pushTo value) cs
      else if c = '\n' || c = '\r' then ⟨false, value, ⟨offset, c :: cs⟩⟩
      else readString quote 0 next (value.push c) cs

-- ---------------------------------------------------------------------------
-- Templates
-- ---------------------------------------------------------------------------

/-- What a piece of a template ends in. -/
inductive PieceEnd where
  | backtick
  | substitution
  | endOfText
  deriving Repr, Inhabited, DecidableEq

/-- A piece of a template: what it ends in, the text it denotes, and where it
stops. -/
structure TemplatePiece where
  ending : PieceEnd
  value : String
  stop : Cursor
  deriving Repr, Inhabited

/-- Reads a piece of a template. The next `skip` characters belong to an escape
that was read already. -/
def readTemplate (skip : Nat) (offset : Nat) (value : String) : List Char → TemplatePiece
  | [] => ⟨.endOfText, value, ⟨offset, []⟩⟩
  | c :: cs =>
    let next := offset + c.utf8Size
    match skip with
    | k + 1 => readTemplate k next value cs
    | 0 =>
      if c = '`' then ⟨.backtick, value, ⟨next, cs⟩⟩
      else if c = '\\' then
        let e := escape cs
        readTemplate e.length next (e.pushTo value) cs
      else
        match c, cs with
        | '$', '{' :: rest => ⟨.substitution, value, ⟨next + 1, rest⟩⟩
        | _, _ => readTemplate 0 next (value.push c) cs

end ModuleBundler
