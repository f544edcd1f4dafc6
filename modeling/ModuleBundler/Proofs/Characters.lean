import Mathlib.Data.Bool.AllAny
import ModuleBundler.Proofs.Tokens

/-!
# ModuleBundler — how the character classes lie to each other

Digits are few, and so are the characters of spacing: both classes are listed here. What a
name may begin with is told apart from spacing by looking up each character of spacing in
the table of letters.

* `of_isDigit`, `of_isHexDigit` — what is told of a class by looking at its list.
* `lineTerminators`, `blanks` — the characters of spacing, which `isLineBreak` and `isBlank`
  tell.
* `begins_cons` — a name start and a digit begin a token.
-/

namespace ModuleBundler

open Text

-- ---------------------------------------------------------------------------
-- Lists
-- ---------------------------------------------------------------------------

/-- What holds of the characters from one to another, looked at one by one. -/
theorem of_between {P : Char → Prop} {a b c : Char} (ha : a ≤ c) (hb : c ≤ b)
    (h : ∀ n ∈ List.range' a.toNat (b.toNat + 1 - a.toNat), P (Char.ofNat n)) : P c := by
  have hlow : a.toNat ≤ c.toNat := ha
  have hhigh : c.toNat ≤ b.toNat := hb
  have hc := h c.toNat (by rw [List.mem_range'_1]; omega)
  rwa [Char.ofNat_toNat] at hc

theorem mem_digits {c : Char} (h : isDigit c = true) : c ∈ "0123456789".toList := by
  rw [isDigit, Bool.and_eq_true, decide_eq_true_eq, decide_eq_true_eq] at h
  exact of_between h.1 h.2 (by decide)

theorem mem_hexDigits {c : Char} (h : isHexDigit c = true) :
    c ∈ "0123456789abcdefABCDEF".toList := by
  simp only [isHexDigit, isDigit, Bool.or_eq_true, Bool.and_eq_true, decide_eq_true_eq] at h
  rcases h with (h | h) | h
  · exact of_between h.1 h.2 (by decide)
  · exact of_between h.1 h.2 (by decide)
  · exact of_between h.1 h.2 (by decide)

/-- What holds of the ten digits holds of each digit. -/
theorem of_isDigit {P : Char → Prop} [DecidablePred P]
    (h : ("0123456789".toList.all fun d => P d) = true) {c : Char} (hc : isDigit c = true) : P c :=
  List.all_iff_forall_prop.1 h c (mem_digits hc)

/-- What holds of the hexadecimal digits, in either case, holds of each of them. -/
theorem of_isHexDigit {P : Char → Prop} [DecidablePred P]
    (h : ("0123456789abcdefABCDEF".toList.all fun d => P d) = true) {c : Char}
    (hc : isHexDigit c = true) : P c :=
  List.all_iff_forall_prop.1 h c (mem_hexDigits hc)

/-- The line terminators: LF, CR, and the separators of lines and of paragraphs. -/
def lineTerminators : List Char := ['\n', '\r', '\u2028', '\u2029']

/-- White space that ends no line. -/
def blanks : List Char :=
  ['\t', '\x0b', '\x0c', ' ', '\u0085', '\u00A0', '\u1680', '\u2000', '\u2001', '\u2002',
    '\u2003', '\u2004', '\u2005', '\u2006', '\u2007', '\u2008', '\u2009', '\u200A', '\u202F',
    '\u205F', '\u3000', '\uFEFF']

theorem isLineBreak_iff {c : Char} : isLineBreak c = true ↔ c ∈ lineTerminators := by
  simp [isLineBreak, lineTerminators, or_assoc]

theorem isLineBreak_eq_false_iff {c : Char} : isLineBreak c = false ↔ c ∉ lineTerminators := by
  rw [← isLineBreak_iff, Bool.not_eq_true]

theorem isBlank_iff {c : Char} : isBlank c = true ↔ c ∈ blanks := by
  constructor
  · intro h
    by_cases hc : 0x2000 ≤ c.val ∧ c.val ≤ 0x200A
    · exact of_between (a := '\u2000') (b := '\u200A') hc.1 hc.2 (by decide)
    · simp only [isBlank, isWideSpace, isLineBreak, Bool.or_eq_true, Bool.and_eq_true,
        decide_eq_true_eq, hc, or_false] at h
      simp only [blanks, List.mem_cons]
      grind
  · have hall : blanks.all isBlank = true := by decide
    exact List.all_eq_true.1 hall c

-- ---------------------------------------------------------------------------
-- Name starts and digits
-- ---------------------------------------------------------------------------

theorem isNameStart_of_mem_spacing : ∀ c ∈ blanks ++ lineTerminators, isNameStart c = false := by
  rw [← List.all_iff_forall_prop]
  decide +kernel

theorem isDigit_of_mem_spacing : ∀ c ∈ blanks ++ lineTerminators, isDigit c = false := by
  rw [← List.all_iff_forall_prop]
  decide

theorem not_isNameStart_of_isDigit {c : Char} (h : isDigit c = true) : isNameStart c = false :=
  of_isDigit (P := fun d => isNameStart d = false) (by decide) h

/-- With a name start and with a digit a token begins. -/
theorem begins_cons {c : Char} (h : isNameStart c = true ∨ isDigit c = true) (cs : List Char) :
    Begins (c :: cs) := by
  have hspacing : ¬(isBlank c = true ∨ isLineBreak c = true) := by
    intro hc
    have hmem := List.mem_append.2 (hc.imp isBlank_iff.1 isLineBreak_iff.1)
    rcases h with h | h
    · exact absurd h (by simp [isNameStart_of_mem_spacing c hmem])
    · exact absurd h (by simp [isDigit_of_mem_spacing c hmem])
  have hsign : c ≠ '/' ∧ c ≠ '#' := by
    constructor
    · rintro rfl
      revert h
      decide
    · rintro rfl
      revert h
      decide
  rw [not_or, Bool.not_eq_true, Bool.not_eq_true] at hspacing
  exact ⟨hspacing.2, hspacing.1, fun hc => absurd hc hsign.1, fun hc => absurd hc hsign.2⟩

end ModuleBundler
