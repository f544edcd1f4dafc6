import ModuleBundler.Text.Character

/-!
# ModuleBundler — JSON strings

A JSON string is a text between double quotes. Quotes, backslashes and control
characters are escaped; any character may be, in the form `\u` with four
hexadecimal digits, where characters beyond U+FFFF take a pair of surrogates.

* `Json.quote` — writes a string. What need not be escaped is written as it is.
* `Json.unquote` — reads a string. A surrogate that stands alone is refused.
-/

namespace ModuleBundler.Json

-- ---------------------------------------------------------------------------
-- Writing
-- ---------------------------------------------------------------------------

/-- A hexadecimal digit, in lower case. -/
def hexDigit (n : Nat) : Char :=
  if n < 10 then Char.ofNat ('0'.toNat + n) else Char.ofNat ('a'.toNat + (n - 10))

/-- How a character is written inside a string. -/
def escape (c : Char) : List Char :=
  match c with
  | '"' => ['\\', '"']
  | '\\' => ['\\', '\\']
  | '\x08' => ['\\', 'b']
  | '\x0c' => ['\\', 'f']
  | '\n' => ['\\', 'n']
  | '\x0d' => ['\\', 'r']
  | '\t' => ['\\', 't']
  | c =>
    if c.toNat < 0x20 then ['\\', 'u', '0', '0', hexDigit (c.toNat / 16), hexDigit (c.toNat % 16)]
    else [c]

/-- A text as a string. -/
def quote (text : String) : String := String.ofList ('"' :: text.toList.flatMap escape ++ ['"'])

-- ---------------------------------------------------------------------------
-- Reading
-- ---------------------------------------------------------------------------

/-- The number that four hexadecimal digits write, if they are such digits. -/
def hexUnit? (a b c d : Char) : Option Nat :=
  if [a, b, c, d].all Text.isHexDigit then
    some ([a, b, c, d].foldl (fun n x => n * 16 + Text.hexValue x) 0)
  else none

/-- A surrogate that begins a pair. -/
def isLeading (unit : Nat) : Bool := 0xD800 ≤ unit && unit ≤ 0xDBFF

/-- A surrogate that ends a pair. -/
def isTrailing (unit : Nat) : Bool := 0xDC00 ≤ unit && unit ≤ 0xDFFF

/-- The character of a pair of surrogates. -/
def paired (leading trailing : Nat) : Char :=
  Char.ofNat (0x10000 + (leading - 0xD800) * 0x400 + (trailing - 0xDC00))

/-- What a single character after a backslash stands for. -/
def simpleEscape? : Char → Option Char
  | '"' => some '"'
  | '\\' => some '\\'
  | '/' => some '/'
  | 'b' => some '\x08'
  | 'f' => some '\x0c'
  | 'n' => some '\n'
  | 'r' => some '\x0d'
  | 't' => some '\t'
  | _ => none

/-- Reads on inside a string, given the characters read so far, backwards. Gives
the text and what follows the closing quote. -/
def unquoteFrom (passed : List Char) : List Char → Option (String × List Char)
  | '"' :: rest => some (String.ofList passed.reverse, rest)
  | '\\' :: 'u' :: a :: b :: c :: d :: rest =>
    match hexUnit? a b c d with
    | none => none
    | some unit =>
      if isLeading unit then
        match rest with
        | '\\' :: 'u' :: a :: b :: c :: d :: rest =>
          match hexUnit? a b c d with
          | none => none
          | some second =>
            if isTrailing second then unquoteFrom (paired unit second :: passed) rest else none
        | _ => none
      else if isTrailing unit then none
      else unquoteFrom (Char.ofNat unit :: passed) rest
  | '\\' :: e :: rest =>
    match simpleEscape? e with
    | some c => unquoteFrom (c :: passed) rest
    | none => none
  | c :: rest => if c = '\\' || c.toNat < 0x20 then none else unquoteFrom (c :: passed) rest
  | [] => none

/-- Reads a string from its opening quote on. -/
def unquote : List Char → Option (String × List Char)
  | '"' :: rest => unquoteFrom [] rest
  | _ => none

end ModuleBundler.Json
