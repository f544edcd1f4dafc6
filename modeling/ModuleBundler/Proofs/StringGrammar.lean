import Mathlib.Data.Nat.Digits.Defs
import ModuleBundler.Text.Character

/-!
# ModuleBundler — the strings of the language

What a string of the source language is written as, and what it denotes. It is a row of
parts between two quotes; each part contributes code units of UTF-16, and the string denotes
the text with these units. A character beyond the first plane has two of them, so it may be
written as two escapes, neither of which denotes a character.

* `StringPart`, `StringPart.Allowed` — the parts of a string, and where they may stand.
* `StringPart.units` — the code units that a part contributes.
* `StringLiteral` — a string as it may be written.
* `utf16_injective` — a text is told by its code units.
-/

namespace ModuleBundler

open Text

-- ---------------------------------------------------------------------------
-- Code units
-- ---------------------------------------------------------------------------

/-- The code units of a code point: two beyond the first plane. -/
def codeUnits (n : Nat) : List Nat :=
  if n < 0x10000 then [n]
  else [0xD800 + (n - 0x10000) / 0x400, 0xDC00 + (n - 0x10000) % 0x400]

/-- The code points that denote no character: each is half of a pair of code units. -/
def IsSurrogate (n : Nat) : Prop := 0xD800 ≤ n ∧ n ≤ 0xDFFF

instance (n : Nat) : Decidable (IsSurrogate n) := inferInstanceAs (Decidable (_ ∧ _))

/-- The code units of characters. -/
def utf16 (cs : List Char) : List Nat := cs.flatMap fun c => codeUnits c.toNat

@[simp]
theorem utf16_nil : utf16 [] = [] := rfl

@[simp]
theorem utf16_cons (c : Char) (cs : List Char) :
    utf16 (c :: cs) = codeUnits c.toNat ++ utf16 cs := rfl

@[simp]
theorem utf16_append (cs ds : List Char) : utf16 (cs ++ ds) = utf16 cs ++ utf16 ds :=
  List.flatMap_append

/-- A character has a code point below the surrogates or above them. -/
theorem toNat_lt_or (c : Char) :
    c.toNat < 0xD800 ∨ 0xDFFF < c.toNat ∧ c.toNat < 0x110000 := c.valid

theorem codeUnits_ne_nil (n : Nat) : codeUnits n ≠ [] := by
  unfold codeUnits
  split <;> exact List.cons_ne_nil _ _

/-- The first code unit tells whether a second one belongs to it. -/
theorem codeUnits_append_inj {c d : Char} {us vs : List Nat}
    (h : codeUnits c.toNat ++ us = codeUnits d.toNat ++ vs) : c = d ∧ us = vs := by
  have hc := toNat_lt_or c
  have hd := toNat_lt_or d
  have hpoint : c.toNat = d.toNat ∧ us = vs := by
    unfold codeUnits at h
    split at h <;> split at h <;>
      simp only [List.cons_append, List.nil_append, List.cons.injEq] at h
    · exact h
    · omega
    · omega
    · obtain ⟨hhigh, hlow, htail⟩ := h
      exact ⟨by omega, htail⟩
  exact ⟨Char.toNat_inj.1 hpoint.1, hpoint.2⟩

/-- A text is told by its code units. -/
theorem utf16_injective {cs ds : List Char} (h : utf16 cs = utf16 ds) : cs = ds := by
  induction cs generalizing ds with
  | nil =>
    cases ds with
    | nil => rfl
    | cons d ds => exact absurd (List.append_eq_nil_iff.1 h.symm).1 (codeUnits_ne_nil _)
  | cons c cs ih =>
    cases ds with
    | nil => exact absurd (List.append_eq_nil_iff.1 h).1 (codeUnits_ne_nil _)
    | cons d ds =>
      obtain ⟨rfl, htail⟩ := codeUnits_append_inj h
      rw [ih htail]

-- ---------------------------------------------------------------------------
-- Parts
-- ---------------------------------------------------------------------------

/-- A part of a string. A `hex` escape has two digits and a `unicode` escape four; a
`braced` escape has any number of them. A line terminator behind a backslash goes on with
the string on the next line. -/
inductive StringPart where
  | plain (c : Char)
  | escaped (c : Char)
  | nul
  | hex (digits : List Char)
  | unicode (digits : List Char)
  | braced (digits : List Char)
  | continuation (terminator : List Char)
  deriving Repr

/-- The value of a hexadecimal digit. -/
def digitValue (d : Char) : Nat := "0123456789abcdef".toList.idxOf d.toLower

/-- The code point that hexadecimal digits denote. -/
def codePoint (digits : List Char) : Nat := Nat.ofDigits 16 (digits.map digitValue).reverse

/-- What a character behind a backslash denotes, if it is no digit and not `x` or `u`. -/
def escapeValue : Char → Char
  | 'b' => '\x08'
  | 't' => '\t'
  | 'n' => '\n'
  | 'v' => '\x0b'
  | 'f' => '\x0c'
  | 'r' => '\r'
  | c => c

namespace StringPart

/-- A part as it is written. -/
def text : StringPart → List Char
  | plain c => [c]
  | escaped c => ['\\', c]
  | nul => ['\\', '0']
  | hex digits => '\\' :: 'x' :: digits
  | unicode digits => '\\' :: 'u' :: digits
  | braced digits => '\\' :: 'u' :: '{' :: (digits ++ ['}'])
  | continuation terminator => '\\' :: terminator

/-- Where a part may stand in a string with a quote, by the character behind it. U+2028 and
U+2029 need no backslash; a carriage return takes a line feed along. -/
def Allowed (quote : Char) (behind : Option Char) : StringPart → Prop
  | plain c => c ≠ quote ∧ c ≠ '\\' ∧ c ≠ '\n' ∧ c ≠ '\r'
  | escaped c => isLineBreak c = false ∧ isDigit c = false ∧ c ≠ 'x' ∧ c ≠ 'u'
  | nul => behind.any isDigit = false
  | hex digits => digits.length = 2 ∧ digits.all isHexDigit = true
  | unicode digits => digits.length = 4 ∧ digits.all isHexDigit = true
  | braced digits =>
    digits ≠ [] ∧ digits.all isHexDigit = true ∧ codePoint digits ≤ 0x10FFFF
  | continuation terminator =>
    terminator ∈ [['\n'], ['\r', '\n'], ['\u2028'], ['\u2029']] ∨
      terminator = ['\r'] ∧ behind ≠ some '\n'

instance (quote : Char) (behind : Option Char) :
    (p : StringPart) → Decidable (p.Allowed quote behind)
  | plain _ => inferInstanceAs (Decidable (_ ∧ _ ∧ _ ∧ _))
  | escaped _ => inferInstanceAs (Decidable (_ ∧ _ ∧ _ ∧ _))
  | nul => inferInstanceAs (Decidable (_ = false))
  | hex _ => inferInstanceAs (Decidable (_ ∧ _))
  | unicode _ => inferInstanceAs (Decidable (_ ∧ _))
  | braced _ => inferInstanceAs (Decidable (_ ∧ _ ∧ _))
  | continuation _ => inferInstanceAs (Decidable (_ ∨ _ ∧ _))

/-- The code units that a part contributes to the text of its string. -/
def units : StringPart → List Nat
  | plain c => codeUnits c.toNat
  | escaped c => codeUnits (escapeValue c).toNat
  | nul => [0]
  | hex digits => [codePoint digits]
  | unicode digits => [codePoint digits]
  | braced digits => codeUnits (codePoint digits)
  | continuation _ => []

end StringPart

-- ---------------------------------------------------------------------------
-- Strings
-- ---------------------------------------------------------------------------

/-- The parts may stand where they do, up to the closing quote. -/
def AllowedParts (quote : Char) : List StringPart → Prop
  | [] => True
  | p :: ps => p.Allowed quote (ps.flatMap StringPart.text ++ [quote]).head? ∧ AllowedParts quote ps

instance AllowedParts.decidable (quote : Char) :
    (parts : List StringPart) → Decidable (AllowedParts quote parts)
  | [] => isTrue trivial
  | _ :: ps =>
    have := AllowedParts.decidable quote ps
    inferInstanceAs (Decidable (_ ∧ _))

/-- A string as it may be written. -/
structure StringLiteral where
  quote : Char
  parts : List StringPart
  isQuote : quote = '"' ∨ quote = '\''
  allowed : AllowedParts quote parts

namespace StringLiteral

/-- A string as it is written. -/
def text (l : StringLiteral) : List Char :=
  l.quote :: (l.parts.flatMap StringPart.text ++ [l.quote])

/-- The code units of the text that a string denotes. -/
def units (l : StringLiteral) : List Nat := l.parts.flatMap StringPart.units

end StringLiteral

end ModuleBundler
