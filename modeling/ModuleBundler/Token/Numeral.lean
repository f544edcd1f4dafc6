import ModuleBundler.Text.Character
import ModuleBundler.Text.Cursor
import ModuleBundler.Token.Basic

/-!
# ModuleBundler — numerals

Numbers are written with a radix sign (`0x`, `0o`, `0b`) or in decimal with an
optional fraction and exponent. Underscores may separate digits. A whole number
with the suffix `n` is a big integer; otherwise no word may follow a numeral.
-/

namespace ModuleBundler

open Text

/-- A run of digits: where it stops and whether separators occur in it. -/
structure DigitRun where
  stop : Cursor
  separator : Bool
  deriving Repr, Inhabited

/-- The longest run of digits and underscores that does not begin with an
underscore. `begun` tells that the run has begun. -/
def digitRun (isDigit : Char → Bool) (begun separator : Bool) (offset : Nat) :
    List Char → DigitRun
  | [] => ⟨⟨offset, []⟩, separator⟩
  | c :: cs =>
    if isDigit c then digitRun isDigit true separator (offset + c.utf8Size) cs
    else if c = '_' && begun then digitRun isDigit true true (offset + c.utf8Size) cs
    else ⟨⟨offset, c :: cs⟩, separator⟩

/-- The digits ahead. -/
def digitsAt (isDigit : Char → Bool) (c : Cursor) : DigitRun :=
  digitRun isDigit false false c.offset c.rest

/-- The digits that a radix sign calls for. -/
def radixDigits? : Char → Option (Char → Bool)
  | 'x' | 'X' => some isHexDigit
  | 'o' | 'O' => some isOctalDigit
  | 'b' | 'B' => some isBinaryDigit
  | _ => none

/-- A numeral before what follows it is looked at: where it stops, whether it
may be a big integer, and a missing digit. -/
structure Numeral where
  stop : Cursor
  whole : Bool
  flags : TokenFlags
  fault : Option TokenFault
  deriving Repr, Inhabited

/-- A numeral with a radix sign, read from its first digit on. -/
def readRadix (isDigit : Char → Bool) (flags : TokenFlags) (c : Cursor) : Numeral :=
  let run := digitsAt isDigit c
  { stop := run.stop
    whole := true
    flags := { flags with radix := true, separator := run.separator }
    fault := if run.stop.offset = c.offset then some .digitExpected else none }

/-- The exponent of a decimal numeral, if one is ahead. -/
def readExponent (n : Numeral) : Numeral :=
  match n.stop.rest with
  | 'e' :: _ | 'E' :: _ =>
    let sign := n.stop.advance
    let digits := if sign.peek? = some '+' || sign.peek? = some '-' then sign.advance else sign
    let run := digitsAt isDigit digits
    { stop := run.stop
      whole := false
      flags := { n.flags with
        scientific := true, separator := n.flags.separator || run.separator }
      fault := if run.stop.offset = digits.offset then some .digitExpected else none }
  | _ => n

/-- The fraction of a decimal numeral, if one is ahead. -/
def readFraction (n : Numeral) : Numeral :=
  match n.stop.rest with
  | '.' :: _ =>
    let run := digitsAt isDigit n.stop.advance
    { n with
      stop := run.stop
      whole := false
      flags := { n.flags with separator := n.flags.separator || run.separator } }
  | _ => n

/-- A decimal numeral. -/
def readDecimal (flags : TokenFlags) (c : Cursor) : Numeral :=
  let run := digitsAt isDigit c
  readExponent (readFraction ⟨run.stop, true, { flags with separator := run.separator }, none⟩)

/-- A numeral, told apart by its first two characters. -/
def readNumeral (flags : TokenFlags) (c : Cursor) : Numeral :=
  match c.rest with
  | '0' :: r :: _ =>
    match radixDigits? r with
    | some isDigit => readRadix isDigit flags (c.drop 2)
    | none => readDecimal flags c
  | _ => readDecimal flags c

/-- The token of the numeral ahead. -/
def scanNumber (flags : TokenFlags) (c : Cursor) : Token :=
  let n := readNumeral flags c
  let token (kind : TokenKind) (stop : Cursor) (fault : Option TokenFault) : Token :=
    ⟨kind, c, stop, c.textTo stop, n.flags, fault⟩
  if n.fault.isSome then token .unknown n.stop n.fault
  else if n.whole && n.stop.peek? = some 'n' then token .bigInt n.stop.advance none
  else if n.stop.peek?.any isNameStart then token .unknown n.stop (some .wordAfterNumber)
  else token .number n.stop none

end ModuleBundler
