import ModuleBundler.Text.Alphabetic
import ModuleBundler.Text.Numeric

/-!
# ModuleBundler — character classes of the source language

The classes that the tokenizer asks for. ASCII characters are classified by
range; the others by the Unicode properties `White_Space` and `Alphabetic` and
the categories of numerals.

* `isLineBreak` — the four line terminators.
* `isBlank` — white space inside a line.
* `isNameStart`, `isNamePart` — what a name may begin with and go on with.
-/

namespace ModuleBundler.Text

/-- A line terminator: LF, CR, U+2028 or U+2029. -/
def isLineBreak (c : Char) : Bool :=
  c = '\n' || c = '\r' || c = '\u2028' || c = '\u2029'

/-- The characters beyond ASCII with the property `White_Space`. -/
def isWideSpace (c : Char) : Bool :=
  c = '\u0085' || c = '\u00A0' || c = '\u1680' || (0x2000 ≤ c.val && c.val ≤ 0x200A) ||
    c = '\u2028' || c = '\u2029' || c = '\u202F' || c = '\u205F' || c = '\u3000'

/-- White space that does not end a line: space, tab, vertical tab, form feed,
the byte order mark, and the wide spaces that are no line terminators. -/
def isBlank (c : Char) : Bool :=
  c = ' ' || c = '\t' || c = '\x0b' || c = '\x0c' || c = '\uFEFF' ||
    (isWideSpace c && !isLineBreak c)

/-- An ASCII letter. -/
def isAsciiLetter (c : Char) : Bool :=
  ('a' ≤ c && c ≤ 'z') || ('A' ≤ c && c ≤ 'Z')

/-- A decimal digit, ASCII only. -/
def isDigit (c : Char) : Bool := '0' ≤ c && c ≤ '9'

/-- A hexadecimal digit, in either case. -/
def isHexDigit (c : Char) : Bool :=
  isDigit c || ('a' ≤ c && c ≤ 'f') || ('A' ≤ c && c ≤ 'F')

/-- An octal digit. -/
def isOctalDigit (c : Char) : Bool := '0' ≤ c && c ≤ '7'

/-- A binary digit. -/
def isBinaryDigit (c : Char) : Bool := c = '0' || c = '1'

/-- The value of a hexadecimal digit. -/
def hexValue (c : Char) : Nat :=
  if isDigit c then c.toNat - '0'.toNat
  else if 'a' ≤ c && c ≤ 'f' then c.toNat - 'a'.toNat + 10
  else if 'A' ≤ c && c ≤ 'F' then c.toNat - 'A'.toNat + 10
  else 0

/-- What a name may begin with: a letter of any script, `$` or `_`. -/
def isNameStart (c : Char) : Bool :=
  isAsciiLetter c || c = '$' || c = '_' || (0x7F < c.val && alphabetic.contains c.toNat)

/-- What a name may go on with: also numerals and the two zero-width joiners. -/
def isNamePart (c : Char) : Bool :=
  isAsciiLetter c || isDigit c || c = '$' || c = '_' || c = '\u200C' || c = '\u200D' ||
    (0x7F < c.val && (alphabetic.contains c.toNat || numeric.contains c.toNat))

end ModuleBundler.Text
