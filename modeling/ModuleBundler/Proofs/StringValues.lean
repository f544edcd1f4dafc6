import Mathlib.Algebra.Order.BigOperators.Group.List
import Mathlib.Data.Nat.Digits.Lemmas
import ModuleBundler.Proofs.Characters
import ModuleBundler.Proofs.FirstText
import ModuleBundler.Proofs.StringGrammar

/-!
# ModuleBundler — the values of strings

A string of the language is read whole: its token ends behind the closing quote. Its value
is the text that the string denotes unless a part of it is lost. Two kinds are. An escape
whose code point is half of a pair of code units denotes nothing by itself, and the two of
a pair are not taken together. And of the digits between braces only six are read, so that
more of them, zeros in front included, stay in the value as they are written.

* `escape_hex`, `escape_braced`, `escape_escaped` — what the escapes of a string denote.
* `StringPart.cooked` — the characters that a part adds to the value.
* `readString_parts` — a string is read part by part.
* `StringPart.IsLost` — the parts whose code units do not come back.
* `next_stringLiteral` — the token of a string, and when its value is the right one.
-/

namespace ModuleBundler

open Text
open String (utf8Len)

-- ---------------------------------------------------------------------------
-- Digits
-- ---------------------------------------------------------------------------

section Digits

variable {ds ahead : List Char} {least most : Nat}

theorem hexValue_eq_digitValue {d : Char} (h : isHexDigit d = true) : hexValue d = digitValue d :=
  of_isHexDigit (P := fun d => hexValue d = digitValue d) (by decide) h

theorem digitValue_lt {d : Char} (h : isHexDigit d = true) : digitValue d < 16 :=
  of_isHexDigit (P := fun d => digitValue d < 16) (by decide) h

theorem hexNumber_eq_codePoint (hds : ds.all isHexDigit = true) :
    hexNumber ds = codePoint ds := by
  rw [codePoint, Nat.ofDigits_eq_foldr, List.foldr_reverse, List.foldl_map, hexNumber]
  refine List.foldl_ext _ _ _ fun n d hd => ?_
  rw [hexValue_eq_digitValue (List.all_eq_true.1 hds d hd), Nat.cast_id, Nat.add_comm]

theorem codePoint_lt (hds : ds.all isHexDigit = true) : codePoint ds < 16 ^ ds.length := by
  have hlt : ∀ n ∈ (ds.map digitValue).reverse, n < 16 := by
    intro n hn
    obtain ⟨d, hd, rfl⟩ := List.mem_map.1 (List.mem_reverse.1 hn)
    exact digitValue_lt (List.all_eq_true.1 hds d hd)
  simpa [codePoint] using Nat.ofDigits_lt_base_pow_length (by decide) hlt

theorem charOfHex_eq (hds : ds.all isHexDigit = true) (hleast : least ≤ ds.length) :
    charOfHex least ds =
      if (codePoint ds).isValidChar then some (Char.ofNat (codePoint ds)) else none := by
  rw [charOfHex, hexNumber_eq_codePoint hds, if_neg (Nat.not_lt.2 hleast)]

/-- A surrogate is no character. -/
theorem charOfHex_of_isSurrogate (hds : ds.all isHexDigit = true)
    (hleast : least ≤ ds.length) (h : IsSurrogate (codePoint ds)) : charOfHex least ds = none := by
  rw [charOfHex_eq hds hleast, if_neg]
  rintro (hlow | hhigh)
  · exact absurd hlow (Nat.not_lt.2 h.1)
  · exact absurd hhigh.1 (Nat.not_lt.2 h.2)

/-- All other code points are characters. -/
theorem charOfHex_of_not_isSurrogate (hds : ds.all isHexDigit = true)
    (hleast : least ≤ ds.length) (h : ¬IsSurrogate (codePoint ds))
    (hmax : codePoint ds ≤ 0x10FFFF) :
    utf16 (charOfHex least ds).toList = codeUnits (codePoint ds) := by
  have hvalid : (codePoint ds).isValidChar := by
    unfold IsSurrogate at h
    unfold Nat.isValidChar
    omega
  have hnat : (Char.ofNat (codePoint ds)).toNat = codePoint ds := by
    rw [Char.ofNat, dif_pos hvalid]
    rfl
  rw [charOfHex_eq hds hleast, if_pos hvalid, Option.toList_some, utf16_cons, utf16_nil,
    List.append_nil, hnat]

/-- Digits are read up to the most of them, or up to a character that is none. -/
theorem hexDigits_append (hds : ds.all isHexDigit = true)
    (hend : ds.length = most ∨ ds.length ≤ most ∧ ahead.head?.any isHexDigit = false) :
    hexDigits most (ds ++ ahead) = ds := by
  have hlen : ds.length ≤ most := by omega
  have hrest : (ahead.take (most - ds.length)).takeWhile isHexDigit = [] := by
    rcases hend with rfl | ⟨-, hahead⟩
    · rw [Nat.sub_self, List.take_zero, List.takeWhile_nil]
    · cases ahead with
      | nil => rw [List.take_nil, List.takeWhile_nil]
      | cons c cs =>
        cases most - ds.length with
        | zero => rfl
        | succ k =>
          have hc : isHexDigit c = false := hahead
          rw [List.take_succ_cons, List.takeWhile_cons, hc, if_neg Bool.false_ne_true]
  rw [hexDigits, List.take_append, List.take_of_length_le hlen,
    List.takeWhile_append_of_pos (List.all_eq_true.1 hds), hrest, List.append_nil]

end Digits

-- ---------------------------------------------------------------------------
-- Escapes
-- ---------------------------------------------------------------------------

section Escapes

variable {ds ahead : List Char}

theorem escape_escaped {c : Char} (hbreak : isLineBreak c = false) (hdigit : isDigit c = false)
    (hx : c ≠ 'x') (hu : c ≠ 'u') : escape (c :: ahead) = ⟨some (escapeValue c), 1⟩ := by
  unfold escapeValue
  split
  case h_7 hb ht hn hv hf hr =>
    have hzero : c ≠ '0' := by
      rintro rfl
      exact absurd hdigit (by decide)
    have hreturn : c ≠ '\r' := by
      rintro rfl
      exact absurd hbreak (by decide)
    have hplain : escape (c :: ahead) = ⟨if isLineBreak c then none else some c, 1⟩ := by
      rw [escape]
      all_goals
        intros
        contradiction
    rw [hplain, hbreak]
    rfl
  all_goals rfl

theorem escape_nul (h : ahead.head?.any isDigit = false) :
    escape ('0' :: ahead) = ⟨some '\x00', 1⟩ := by
  have hescape : escape ('0' :: ahead) =
      if ahead.head?.any isDigit then ⟨some '0', 1⟩ else ⟨some '\x00', 1⟩ := rfl
  rw [hescape, h, if_neg Bool.false_ne_true]

theorem escape_hex (hlen : ds.length = 2) (hds : ds.all isHexDigit = true) :
    escape ('x' :: (ds ++ ahead)) = ⟨charOfHex 2 ds, 1 + ds.length⟩ := by
  have hescape : ∀ cs, escape ('x' :: cs) =
      ⟨charOfHex 2 (hexDigits 2 cs), 1 + (hexDigits 2 cs).length⟩ := fun _ => rfl
  rw [hescape, hexDigits_append hds (.inl hlen)]

/-- What follows a brace behind `u`. -/
theorem escape_brace (cs : List Char) :
    escape ('u' :: '{' :: cs) =
      ⟨charOfHex 1 (hexDigits 6 cs), 2 + (hexDigits 6 cs).length +
        if (cs.drop (hexDigits 6 cs).length).head? = some '}' then 1 else 0⟩ := rfl

theorem escape_unicode (hlen : ds.length = 4) (hds : ds.all isHexDigit = true) :
    escape ('u' :: (ds ++ ahead)) = ⟨charOfHex 4 ds, 1 + ds.length⟩ := by
  have hbrace : ∀ cs, ds ++ ahead ≠ '{' :: cs := by
    intro cs hcs
    cases ds with
    | nil => exact absurd hlen (by decide)
    | cons d ds =>
      obtain rfl := (List.cons.inj hcs).1
      exact absurd (List.all_eq_true.1 hds '{' List.mem_cons_self) (by decide)
  rw [escape, hexDigits_append hds (.inl hlen)]
  exact hbrace

/-- Up to six digits between braces are read with their closing brace. -/
theorem escape_braced (hlen : ds.length ≤ 6) (hds : ds.all isHexDigit = true) :
    escape ('u' :: '{' :: (ds ++ '}' :: ahead)) = ⟨charOfHex 1 ds, 2 + ds.length + 1⟩ := by
  have hclosing : ('}' :: ahead).head?.any isHexDigit = false := by
    have hsign : isHexDigit '}' = false := by decide
    exact hsign
  rw [escape_brace, hexDigits_append hds (.inr ⟨hlen, hclosing⟩), List.drop_left, List.head?_cons,
    if_pos rfl]

/-- Of more digits between braces six are read. -/
theorem escape_braced_long (hlen : ds.length = 6) (hds : ds.all isHexDigit = true)
    (hahead : ahead.head? ≠ some '}') :
    escape ('u' :: '{' :: (ds ++ ahead)) = ⟨charOfHex 1 ds, 2 + ds.length⟩ := by
  rw [escape_brace, hexDigits_append hds (.inl hlen), List.drop_left, if_neg hahead,
    Nat.add_zero]

/-- A line terminator behind a backslash denotes nothing. -/
theorem escape_continuation {terminator : List Char}
    (h : terminator ∈ [['\n'], ['\r', '\n'], ['\u2028'], ['\u2029']] ∨
      terminator = ['\r'] ∧ ahead.head? ≠ some '\n') :
    escape (terminator ++ ahead) = ⟨none, terminator.length⟩ := by
  rcases h with h | ⟨rfl, hfeed⟩
  · simp only [List.mem_cons, List.not_mem_nil, or_false] at h
    rcases h with rfl | rfl | rfl | rfl <;> rfl
  · have halone : ∀ cs, '\r' = '\r' → ahead = '\n' :: cs → False := by
      rintro cs - rfl
      exact hfeed rfl
    rw [List.singleton_append, escape]
    · rfl
    case x_11 => exact halone
    all_goals simp

end Escapes

-- ---------------------------------------------------------------------------
-- Parts
-- ---------------------------------------------------------------------------

namespace StringPart

/-- An escape in braces with more than six digits. -/
def IsLong : StringPart → Prop
  | braced digits => 6 < digits.length
  | _ => False

/-- The characters that a part adds to the value of its string. -/
def cooked : StringPart → List Char
  | plain c => [c]
  | escaped c => [escapeValue c]
  | nul => ['\x00']
  | hex digits => (charOfHex 2 digits).toList
  | unicode digits => (charOfHex 4 digits).toList
  | braced digits =>
    if digits.length ≤ 6 then (charOfHex 1 digits).toList
    else (charOfHex 1 (digits.take 6)).toList ++ (digits.drop 6 ++ ['}'])
  | continuation _ => []

end StringPart

/-- Characters that stand for themselves in a string. -/
def ReadAsWritten (quote : Char) (cs : List Char) : Prop :=
  ∀ c ∈ cs, c ≠ quote ∧ c ≠ '\\' ∧ c ≠ '\n' ∧ c ≠ '\r'

section Reading

variable {quote : Char} {cs ahead : List Char} {value : String} {offset : Nat}

/-- The characters of an escape are passed. -/
theorem readString_skip (quote : Char) (cs ahead : List Char) (offset : Nat) (value : String) :
    readString quote cs.length offset value (cs ++ ahead) =
      readString quote 0 (offset + utf8Len cs) value ahead := by
  induction cs generalizing offset with
  | nil => rfl
  | cons c cs ih =>
    rw [List.length_cons, List.cons_append, readString, ih, String.utf8Len_cons]
    congr 1
    omega

theorem readString_asWritten (h : ReadAsWritten quote cs) :
    readString quote 0 offset value (cs ++ ahead) =
      readString quote 0 (offset + utf8Len cs) (value ++ String.ofList cs) ahead := by
  induction cs generalizing offset value with
  | nil => simp
  | cons c cs ih =>
    obtain ⟨⟨hquote, hslash, hfeed, hreturn⟩, hcs⟩ := List.forall_mem_cons.1 h
    have hstep : readString quote 0 offset value (c :: (cs ++ ahead)) =
        readString quote 0 (offset + c.utf8Size) (value.push c) (cs ++ ahead) := by
      simp [readString, hquote, hslash, hfeed, hreturn]
    have hvalue : value.push c ++ String.ofList cs = value ++ String.ofList (c :: cs) := by
      rw [← String.toList_inj]
      simp
    rw [List.cons_append, hstep, ih hcs, String.utf8Len_cons, hvalue]
    congr 1
    omega

/-- An escape adds what it denotes. -/
theorem readString_escape (hquote : quote = '"' ∨ quote = '\'') {w : Option Char}
    (h : escape (cs ++ ahead) = ⟨w, cs.length⟩) (offset : Nat) (value : String) :
    readString quote 0 offset value ('\\' :: (cs ++ ahead)) =
      readString quote 0 (offset + utf8Len ('\\' :: cs)) (value ++ String.ofList w.toList)
        ahead := by
  have hslash : '\\' ≠ quote := by
    rcases hquote with rfl | rfl <;> decide
  have hstep : readString quote 0 offset value ('\\' :: (cs ++ ahead)) =
      readString quote cs.length (offset + '\\'.utf8Size) (Escape.pushTo ⟨w, cs.length⟩ value)
        (cs ++ ahead) := by
    rw [readString, if_neg hslash, if_pos rfl, h]
  have hvalue : Escape.pushTo ⟨w, cs.length⟩ value = value ++ String.ofList w.toList := by
    rw [← String.toList_inj]
    cases w <;> simp [Escape.pushTo]
  rw [hstep, hvalue, readString_skip, String.utf8Len_cons]
  congr 1
  omega

/-- Digits and a closing brace stand for themselves outside of an escape. -/
theorem readAsWritten_digits (hquote : quote = '"' ∨ quote = '\'') {ds : List Char}
    (hds : ds.all isHexDigit = true) : ReadAsWritten quote (ds ++ ['}']) := by
  intro d hd
  have hsigns : d ≠ '"' ∧ d ≠ '\'' ∧ d ≠ '\\' ∧ d ≠ '\n' ∧ d ≠ '\r' := by
    rcases List.mem_append.1 hd with hd | hd
    · exact of_isHexDigit
        (P := fun d => d ≠ '"' ∧ d ≠ '\'' ∧ d ≠ '\\' ∧ d ≠ '\n' ∧ d ≠ '\r') (by decide)
        (List.all_eq_true.1 hds d hd)
    · rw [List.mem_singleton.1 hd]
      decide
  obtain ⟨hdouble, hsingle, hrest⟩ := hsigns
  rcases hquote with rfl | rfl
  · exact ⟨hdouble, hrest⟩
  · exact ⟨hsingle, hrest⟩

/-- Of more than six digits between braces the first six make an escape, and the ones behind
them stand for themselves. -/
theorem readString_of_isLong (hquote : quote = '"' ∨ quote = '\'') {p : StringPart}
    {behind : Option Char} (h : p.Allowed quote behind) (hlong : p.IsLong) (ahead : List Char)
    (offset : Nat) (value : String) :
    readString quote 0 offset value (p.text ++ ahead) =
      readString quote 0 (offset + utf8Len p.text) (value ++ String.ofList p.cooked) ahead := by
  cases p with
  | braced digits =>
    obtain ⟨-, hdigits, -⟩ := h
    have hlen : 6 < digits.length := hlong
    obtain ⟨first, d, ds, rfl, hfirst⟩ : ∃ first d ds, digits = first ++ d :: ds ∧
        first.length = 6 := by
      refine ⟨digits.take 6, digits[6], digits.drop 7, ?_, ?_⟩
      · rw [← List.drop_eq_getElem_cons, List.take_append_drop]
      · rw [List.length_take]
        omega
    rw [List.all_append, Bool.and_eq_true] at hdigits
    -- the digit behind the sixth is no closing brace, and ends the escape
    have hnext : (d :: ds ++ ['}'] ++ ahead).head? ≠ some '}' := by
      intro hbrace
      obtain rfl : d = '}' := Option.some.inj hbrace
      exact absurd (List.all_eq_true.1 hdigits.2 '}' List.mem_cons_self) (by decide)
    have hescape : escape ('u' :: '{' :: first ++ (d :: ds ++ ['}'] ++ ahead)) =
        ⟨charOfHex 1 first, ('u' :: '{' :: first).length⟩ := by
      rw [List.cons_append, List.cons_append, escape_braced_long hfirst hdigits.1 hnext,
        List.length_cons, List.length_cons]
      congr 1
      omega
    have hcooked : (StringPart.braced (first ++ d :: ds)).cooked =
        (charOfHex 1 first).toList ++ (d :: ds ++ ['}']) := by
      rw [StringPart.cooked, if_neg (Nat.not_le.2 hlen), List.take_left' hfirst,
        List.drop_left' hfirst]
    have htext : (StringPart.braced (first ++ d :: ds)).text =
        '\\' :: ('u' :: '{' :: first ++ (d :: ds ++ ['}'])) := by
      simp [StringPart.text]
    have hoffset : offset + utf8Len ('\\' :: 'u' :: '{' :: first) + utf8Len (d :: ds ++ ['}']) =
        offset + utf8Len ('\\' :: ('u' :: '{' :: first ++ (d :: ds ++ ['}']))) := by
      rw [← List.cons_append, String.utf8Len_append ('\\' :: 'u' :: '{' :: first), Nat.add_assoc]
    rw [htext, hcooked, List.cons_append, List.append_assoc, readString_escape hquote hescape,
      readString_asWritten (readAsWritten_digits hquote hdigits.2), hoffset, String.append_assoc,
      ← String.ofList_append]
  | _ => exact hlong.elim

/-- What an escape with no more than six digits is written with behind its backslash, and what
it denotes. -/
theorem escape_part {p : StringPart} (h : p.Allowed quote ahead.head?) (hplain : ∀ c, p ≠ .plain c)
    (hlong : ¬p.IsLong) :
    ∃ cs w, p.text = '\\' :: cs ∧ p.cooked = Option.toList w ∧
      escape (cs ++ ahead) = ⟨w, cs.length⟩ := by
  cases p with
  | plain c => exact absurd rfl (hplain c)
  | escaped c =>
    obtain ⟨hbreak, hdigit, hx, hu⟩ := h
    exact ⟨[c], _, rfl, rfl, escape_escaped hbreak hdigit hx hu⟩
  | nul => exact ⟨['0'], _, rfl, rfl, escape_nul h⟩
  | hex digits =>
    refine ⟨'x' :: digits, _, rfl, rfl, ?_⟩
    rw [List.cons_append, escape_hex h.1 h.2, List.length_cons, Nat.add_comm]
  | unicode digits =>
    refine ⟨'u' :: digits, _, rfl, rfl, ?_⟩
    rw [List.cons_append, escape_unicode h.1 h.2, List.length_cons, Nat.add_comm]
  | braced digits =>
    have hlen : digits.length ≤ 6 := Nat.not_lt.1 hlong
    refine ⟨'u' :: '{' :: (digits ++ ['}']), _, rfl, if_pos hlen, ?_⟩
    rw [List.cons_append, List.cons_append, List.append_assoc, List.singleton_append,
      escape_braced hlen h.2.1]
    simp only [List.length_cons, List.length_append, List.length_nil]
    congr 1
    omega
  | continuation terminator => exact ⟨terminator, none, rfl, rfl, escape_continuation h⟩

/-- A part of a string is read whole, whatever it adds. -/
theorem readString_part (hquote : quote = '"' ∨ quote = '\'') {p : StringPart}
    (h : p.Allowed quote ahead.head?) (offset : Nat) (value : String) :
    readString quote 0 offset value (p.text ++ ahead) =
      readString quote 0 (offset + utf8Len p.text) (value ++ String.ofList p.cooked) ahead := by
  by_cases hlong : p.IsLong
  · exact readString_of_isLong hquote h hlong ahead offset value
  cases p with
  | plain c =>
    refine readString_asWritten ?_
    intro d hd
    rw [List.mem_singleton.1 hd]
    exact h
  | _ =>
    obtain ⟨cs, w, htext, hcooked, hescape⟩ := escape_part h nofun hlong
    rw [htext, hcooked]
    exact readString_escape hquote hescape offset value

/-- A string is read part by part, up to and with its closing quote. -/
theorem readString_parts (hquote : quote = '"' ∨ quote = '\'') {parts : List StringPart}
    (h : AllowedParts quote parts) (after : List Char) (offset : Nat) (value : String) :
    readString quote 0 offset value (parts.flatMap StringPart.text ++ quote :: after) =
      ⟨true, value ++ String.ofList (parts.flatMap StringPart.cooked),
        ⟨offset + utf8Len (parts.flatMap StringPart.text ++ [quote]), after⟩⟩ := by
  induction parts generalizing offset value with
  | nil => simp [readString]
  | cons p ps ih =>
    obtain ⟨hp, hps⟩ := h
    have hbehind : (ps.flatMap StringPart.text ++ [quote]).head? =
        (ps.flatMap StringPart.text ++ quote :: after).head? := by
      simp [List.head?_append]
    rw [hbehind] at hp
    rw [List.flatMap_cons, List.append_assoc, readString_part hquote hp, ih hps, List.flatMap_cons,
      String.ofList_append, ← String.append_assoc, List.append_assoc, Nat.add_assoc,
      ← String.utf8Len_append]

end Reading

-- ---------------------------------------------------------------------------
-- Lost parts
-- ---------------------------------------------------------------------------

namespace StringPart

/-- Half of a pair of code units. -/
def IsHalf : StringPart → Prop
  | unicode digits => IsSurrogate (codePoint digits)
  | braced digits => IsSurrogate (codePoint digits)
  | _ => False

/-- The code units of the part are not those that it adds to the value. -/
def IsLost (p : StringPart) : Prop := p.IsHalf ∨ p.IsLong

instance : DecidablePred IsHalf
  | unicode _ | braced _ => inferInstanceAs (Decidable (IsSurrogate _))
  | plain _ | escaped _ | nul | hex _ | continuation _ => inferInstanceAs (Decidable False)

instance : DecidablePred IsLong
  | braced _ => inferInstanceAs (Decidable (_ < _))
  | plain _ | escaped _ | nul | hex _ | unicode _ | continuation _ =>
    inferInstanceAs (Decidable False)

instance : DecidablePred IsLost := fun _ => inferInstanceAs (Decidable (_ ∨ _))

variable {p : StringPart} {quote : Char} {behind : Option Char}

/-- The other parts add their code units. -/
theorem utf16_cooked (h : p.Allowed quote behind) (hhalf : ¬p.IsHalf) (hlong : ¬p.IsLong) :
    utf16 p.cooked = p.units := by
  cases p with
  | plain c => exact List.append_nil _
  | escaped c => exact List.append_nil _
  | nul => rfl
  | hex digits =>
    obtain ⟨hlen, hdigits⟩ := h
    have hlt := codePoint_lt hdigits
    rw [hlen] at hlt
    have hunits : codeUnits (codePoint digits) = [codePoint digits] := if_pos (by omega)
    have hsurrogate : ¬IsSurrogate (codePoint digits) := by
      rintro ⟨hlow, -⟩
      omega
    rw [cooked, units, ← hunits]
    exact charOfHex_of_not_isSurrogate hdigits hlen.ge hsurrogate (by omega)
  | unicode digits =>
    obtain ⟨hlen, hdigits⟩ := h
    have hlt := codePoint_lt hdigits
    rw [hlen] at hlt
    have hunits : codeUnits (codePoint digits) = [codePoint digits] := if_pos hlt
    rw [cooked, units, ← hunits]
    exact charOfHex_of_not_isSurrogate hdigits hlen.ge hhalf (by omega)
  | braced digits =>
    obtain ⟨hne, hdigits, hmax⟩ := h
    rw [cooked, if_pos (Nat.not_lt.1 hlong)]
    exact charOfHex_of_not_isSurrogate hdigits (List.length_pos_iff.2 hne) hhalf hmax
  | continuation terminator => rfl

/-- Half of a pair is one code unit, and adds none. -/
theorem cooked_of_isHalf (h : p.Allowed quote behind) (hhalf : p.IsHalf) (hlong : ¬p.IsLong) :
    p.cooked = [] ∧ ∃ n, IsSurrogate n ∧ p.units = [n] := by
  cases p with
  | unicode digits =>
    refine ⟨?_, _, hhalf, rfl⟩
    rw [cooked, charOfHex_of_isSurrogate h.2 h.1.ge hhalf, Option.toList_none]
  | braced digits =>
    obtain ⟨hne, hdigits, -⟩ := h
    have hone : codeUnits (codePoint digits) = [codePoint digits] :=
      if_pos (Nat.lt_of_le_of_lt hhalf.2 (by decide))
    refine ⟨?_, _, hhalf, hone⟩
    rw [cooked, if_pos (Nat.not_lt.1 hlong),
      charOfHex_of_isSurrogate hdigits (List.length_pos_iff.2 hne) hhalf, Option.toList_none]
  | _ => exact hhalf.elim

/-- A code unit that is an ASCII character. -/
def isAsciiUnit (u : Nat) : Bool := u < 0x80

theorem countP_codeUnits_le (n : Nat) : (codeUnits n).countP isAsciiUnit ≤ 1 := by
  unfold codeUnits
  split
  · exact List.countP_le_length
  · have hnone : ∀ u ∈ [0xD800 + (n - 0x10000) / 0x400, 0xDC00 + (n - 0x10000) % 0x400],
        ¬isAsciiUnit u = true := by
      intro u hu
      simp only [List.mem_cons, List.not_mem_nil, or_false] at hu
      simp only [isAsciiUnit, decide_eq_true_eq]
      omega
    rw [List.countP_eq_zero.2 hnone]
    exact Nat.zero_le 1

/-- The digits and the brace that stay in the value are more ASCII characters than the escape
has. -/
theorem countP_lt_of_isLong (h : p.Allowed quote behind) (hlong : p.IsLong) :
    p.units.countP isAsciiUnit < (utf16 p.cooked).countP isAsciiUnit := by
  cases p with
  | braced digits =>
    obtain ⟨d, ds, hmore⟩ : ∃ d ds, digits.drop 6 = d :: ds := by
      refine List.exists_cons_of_ne_nil ?_
      rw [Ne, List.drop_eq_nil_iff]
      exact Nat.not_le.2 hlong
    have hd : isHexDigit d = true := by
      refine List.all_eq_true.1 h.2.1 d (List.mem_of_mem_drop (i := 6) ?_)
      rw [hmore]
      exact List.mem_cons_self
    have hunits := countP_codeUnits_le (codePoint digits)
    have hdigit : (codeUnits d.toNat).countP isAsciiUnit = 1 :=
      of_isHexDigit (P := fun d => (codeUnits d.toNat).countP isAsciiUnit = 1) (by decide) hd
    have hbrace : (codeUnits '}'.toNat).countP isAsciiUnit = 1 := by decide
    rw [units, cooked, if_neg (Nat.not_le.2 hlong), hmore]
    simp only [utf16_append, List.cons_append, utf16_cons, utf16_nil, List.countP_append,
      List.append_nil]
    omega
  | _ => exact hlong.elim

theorem countP_le (h : p.Allowed quote behind) :
    p.units.countP isAsciiUnit ≤ (utf16 p.cooked).countP isAsciiUnit := by
  by_cases hlong : p.IsLong
  · exact (countP_lt_of_isLong h hlong).le
  by_cases hhalf : p.IsHalf
  · obtain ⟨-, n, hn, hunits⟩ := cooked_of_isHalf h hhalf hlong
    have hwide : isAsciiUnit n = false := by
      unfold IsSurrogate at hn
      simp only [isAsciiUnit, decide_eq_false_iff_not]
      omega
    rw [hunits, List.countP_singleton, hwide, if_neg Bool.false_ne_true]
    exact Nat.zero_le _
  · rw [utf16_cooked h hhalf hlong]

theorem length_lt_of_isHalf (h : p.Allowed quote behind) (hhalf : p.IsHalf) (hlong : ¬p.IsLong) :
    (utf16 p.cooked).length < p.units.length := by
  obtain ⟨hnone, n, -, hunits⟩ := cooked_of_isHalf h hhalf hlong
  rw [hnone, hunits]
  exact Nat.zero_lt_one

theorem length_le (h : p.Allowed quote behind) (hlong : ¬p.IsLong) :
    (utf16 p.cooked).length ≤ p.units.length := by
  by_cases hhalf : p.IsHalf
  · exact (length_lt_of_isHalf h hhalf hlong).le
  · rw [utf16_cooked h hhalf hlong]

end StringPart

theorem AllowedParts.allowed {quote : Char} {parts : List StringPart} (h : AllowedParts quote parts) :
    ∀ p ∈ parts, ∃ behind, p.Allowed quote behind := by
  induction parts with
  | nil => exact nofun
  | cons p ps ih => exact List.forall_mem_cons.2 ⟨⟨_, h.1⟩, ih h.2⟩

section Units

variable {quote : Char} {parts : List StringPart}

/-- A part that is too long would leave more ASCII characters than there should be. -/
theorem AllowedParts.not_isLong (h : AllowedParts quote parts)
    (heq : parts.flatMap (fun p => utf16 p.cooked) = parts.flatMap StringPart.units) :
    ∀ p ∈ parts, ¬p.IsLong := by
  intro p hp hlong
  have hcount := congrArg (List.countP StringPart.isAsciiUnit) heq
  rw [List.countP_flatMap, List.countP_flatMap] at hcount
  refine absurd hcount.symm (List.sum_lt_sum _ _ ?_ ⟨p, hp, ?_⟩).ne
  · intro q hq
    obtain ⟨behind, hallowed⟩ := h.allowed q hq
    exact StringPart.countP_le hallowed
  · obtain ⟨behind, hallowed⟩ := h.allowed p hp
    exact StringPart.countP_lt_of_isLong hallowed hlong

/-- Where no part is too long, half of a pair would be missing. -/
theorem AllowedParts.not_isHalf (h : AllowedParts quote parts)
    (heq : parts.flatMap (fun p => utf16 p.cooked) = parts.flatMap StringPart.units) :
    ∀ p ∈ parts, ¬p.IsHalf := by
  intro p hp hhalf
  have hlong := h.not_isLong heq
  have hlength := congrArg List.length heq
  rw [List.length_flatMap, List.length_flatMap] at hlength
  refine absurd hlength (List.sum_lt_sum _ _ ?_ ⟨p, hp, ?_⟩).ne
  · intro q hq
    obtain ⟨behind, hallowed⟩ := h.allowed q hq
    exact StringPart.length_le hallowed (hlong q hq)
  · obtain ⟨behind, hallowed⟩ := h.allowed p hp
    exact StringPart.length_lt_of_isHalf hallowed hhalf (hlong p hp)

/-- The code units come back if and only if no part is lost. -/
theorem utf16_cooked_eq_iff (h : AllowedParts quote parts) :
    utf16 (parts.flatMap StringPart.cooked) = parts.flatMap StringPart.units ↔
      ∀ p ∈ parts, ¬p.IsLost := by
  have hparts : utf16 (parts.flatMap StringPart.cooked) =
      parts.flatMap fun p => utf16 p.cooked := List.flatMap_assoc
  rw [hparts]
  constructor
  · intro heq p hp hlost
    rcases hlost with hhalf | hlong
    · exact h.not_isHalf heq p hp hhalf
    · exact h.not_isLong heq p hp hlong
  · intro hkept
    refine List.flatMap_congr fun p hp => ?_
    obtain ⟨behind, hallowed⟩ := h.allowed p hp
    obtain ⟨hhalf, hlong⟩ := not_or.1 (hkept p hp)
    exact StringPart.utf16_cooked hallowed hhalf hlong

end Units

-- ---------------------------------------------------------------------------
-- Tokens
-- ---------------------------------------------------------------------------

/-- No spacing begins with a quote. -/
theorem StringLiteral.begins_text (l : StringLiteral) (after : List Char) :
    Begins (l.text ++ after) := by
  obtain ⟨quote, parts, hquote, hallowed⟩ := l
  have hsigns : isLineBreak quote = false ∧ isBlank quote = false ∧ quote ≠ '/' ∧ quote ≠ '#' := by
    rcases hquote with rfl | rfl <;> decide
  obtain ⟨hbreak, hblank, hslash, hsharp⟩ := hsigns
  exact ⟨hbreak, hblank, fun h => absurd h hslash, fun h => absurd h hsharp⟩

theorem scanString_of_closed {flags : TokenFlags} {c stop : Cursor} {quote : Char} {value : String}
    (h : readString quote 0 c.advance.offset "" c.advance.rest = ⟨true, value, stop⟩) :
    scanString flags c quote = ⟨.string, c, stop, value, flags, none⟩ := by
  unfold scanString
  simp only [h, if_true]

/-- A string is read from its quote up to and with its closing quote. -/
theorem scanAt_stringLiteral (l : StringLiteral) (flags : TokenFlags) (offset : Nat)
    (after : List Char) :
    scanAt flags ⟨offset, l.text ++ after⟩ =
      ⟨.string, ⟨offset, l.text ++ after⟩, ⟨offset + utf8Len l.text, after⟩,
        String.ofList (l.parts.flatMap StringPart.cooked), flags, none⟩ := by
  have htext : l.text ++ after =
      l.quote :: (l.parts.flatMap StringPart.text ++ l.quote :: after) := by
    simp [StringLiteral.text]
  have hopens : (l.quote = '"' || l.quote = '\'') = true := by
    simpa using l.isQuote
  have hlen : offset + l.quote.utf8Size + utf8Len (l.parts.flatMap StringPart.text ++ [l.quote]) =
      offset + utf8Len l.text := by
    rw [StringLiteral.text, String.utf8Len_cons]
    omega
  have hread := readString_parts l.isQuote l.allowed after (offset + l.quote.utf8Size) ""
  rw [String.empty_append, hlen] at hread
  rw [htext, scanAt]
  dsimp only
  rw [if_pos hopens]
  exact scanString_of_closed hread

/-- A string of the language that denotes a text is read whole, behind any spacing, and its
token stops right behind the closing quote. The value is that text if and only if no part of
the string is lost: none is half of a pair of code units, and none has more than six digits
between braces. -/
theorem next_stringLiteral (l : StringLiteral) (t : Token) (passed after : List Char) (v : String)
    (hrest : t.stop.rest = passed ++ (l.text ++ after))
    (hspacing : SpacingFrom t.stop.offset (l.text ++ after) passed)
    (hunits : l.units = utf16 v.toList) :
    t.next.kind = .string ∧ t.next.fault = none ∧
      t.next.start = ⟨t.stop.offset + utf8Len passed, l.text ++ after⟩ ∧
      t.next.stop = ⟨t.stop.offset + utf8Len passed + utf8Len l.text, after⟩ ∧
      (t.next.value = v ↔ ∀ p ∈ l.parts, ¬p.IsLost) := by
  have hnext : t.next = ⟨.string, ⟨t.stop.offset + utf8Len passed, l.text ++ after⟩,
      ⟨t.stop.offset + utf8Len passed + utf8Len l.text, after⟩,
      String.ofList (l.parts.flatMap StringPart.cooked),
      { lineBreak := passed.any isLineBreak }, none⟩ := by
    rw [Token.next_eq, Token.after_spacing hrest hspacing (l.begins_text after),
      scanAt_stringLiteral]
  rw [hnext]
  refine ⟨rfl, rfl, rfl, rfl, ?_⟩
  rw [← utf16_cooked_eq_iff l.allowed]
  have hvalue : String.ofList (l.parts.flatMap StringPart.cooked) = v ↔
      l.parts.flatMap StringPart.cooked = v.toList := by
    rw [← String.toList_inj, String.toList_ofList]
  constructor
  · intro heq
    rw [hvalue.1 heq]
    exact hunits.symm
  · intro heq
    exact hvalue.2 (utf16_injective (heq.trans hunits))

/-- One string whose value comes back, and one with a pair of escapes that both denote
nothing. -/
theorem next_stringLiteral_pair :
    (Token.initial "'\\x41\\\n\\u\x7b1F600\x7d'").next.value = "A😀" ∧
      (Token.initial "/**/'a\\uD83D\\uDE00';").next.kind = .string ∧
      (Token.initial "/**/'a\\uD83D\\uDE00';").next.value ≠ "a😀" := by
  let kept : StringLiteral :=
    ⟨'\'', [.hex ['4', '1'], .continuation ['\n'], .braced ['1', 'F', '6', '0', '0']], .inr rfl,
      by decide⟩
  let lost : StringLiteral :=
    ⟨'\'', [.plain 'a', .unicode ['D', '8', '3', 'D'], .unicode ['D', 'E', '0', '0']], .inr rfl,
      by decide⟩
  have hspacing : Spacing (lost.text ++ [';']) "/**/".toList :=
    @Spacing.blockComment _ [] [] (by simp) .nil
  obtain ⟨-, -, -, -, hkept⟩ := next_stringLiteral kept
    (Token.initial "'\\x41\\\n\\u\x7b1F600\x7d'") [] [] "A😀" rfl (.inl .nil) (by decide)
  obtain ⟨hkind, -, -, -, hlost⟩ := next_stringLiteral lost
    (Token.initial "/**/'a\\uD83D\\uDE00';") "/**/".toList [';'] "a😀" rfl (.inl hspacing)
    (by decide)
  refine ⟨hkept.2 (by decide), hkind, ?_⟩
  intro hvalue
  exact absurd (hlost.1 hvalue) (by decide)

end ModuleBundler
