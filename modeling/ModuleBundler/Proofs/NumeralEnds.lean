import ModuleBundler.Proofs.Characters
import ModuleBundler.Proofs.FirstText

/-!
# ModuleBundler — where numerals end

A numeral takes the longest run of digits at each of its places, so what stands behind a
decimal one is no digit, and it is refused if a name begins there. Two ends are not looked
at: behind the suffix of a big integer anything may follow, and behind the digits of a
binary or octal numeral a decimal digit of no such numeral. There the text is split, and
the next token begins without anything in between.

* `IsRun`, `WholeNumeral` — runs of digits, and numerals without fraction and exponent.
* `digitsAt_of_run`, `digitsAt_cases` — the run of digits that is read.
* `UncheckedEnd` — the two ends that are not looked at.
* `runsOn_iff_uncheckedEnd` — only there a name start or a digit follows a numeral.
-/

namespace ModuleBundler

open Text
open String (utf8Len)

-- ---------------------------------------------------------------------------
-- Runs of digits
-- ---------------------------------------------------------------------------

/-- A run of digits: a digit, and digits and underscores behind it. -/
def IsRun (isDigit : Char → Bool) : List Char → Prop
  | [] => False
  | d :: ds => isDigit d = true ∧ ∀ c ∈ ds, isDigit c = true ∨ c = '_'

/-- Neither a digit nor an underscore is ahead. -/
def EndsRun (isDigit : Char → Bool) (rest : List Char) : Prop :=
  ∀ c ∈ rest.head?, isDigit c = false ∧ c ≠ '_'

section Runs

variable {p : Char → Bool} {ds rest : List Char}

theorem digitRun_begun (hds : ∀ c ∈ ds, p c = true ∨ c = '_') (hend : EndsRun p rest)
    (separator : Bool) (offset : Nat) :
    (digitRun p true separator offset (ds ++ rest)).stop = ⟨offset + utf8Len ds, rest⟩ := by
  induction ds generalizing separator offset with
  | nil =>
    cases rest with
    | nil => rfl
    | cons c rest =>
      obtain ⟨hdigit, hline⟩ := hend c rfl
      simp [digitRun, hdigit, hline]
  | cons c ds ih =>
    obtain ⟨hc, hds⟩ := List.forall_mem_cons.1 hds
    have hstep : ∃ b, digitRun p true separator offset (c :: (ds ++ rest)) =
        digitRun p true b (offset + c.utf8Size) (ds ++ rest) := by
      by_cases hdigit : p c = true
      · exact ⟨separator, by simp [digitRun, hdigit]⟩
      · obtain rfl : c = '_' := hc.resolve_left hdigit
        exact ⟨true, by simp [digitRun, hdigit]⟩
    obtain ⟨b, hstep⟩ := hstep
    rw [List.cons_append, hstep, ih hds, String.utf8Len_cons]
    congr 1
    omega

/-- A run of digits is read up to its end. -/
theorem digitsAt_of_run {c : Cursor} (hrest : c.rest = ds ++ rest) (hds : IsRun p ds)
    (hend : EndsRun p rest) : (digitsAt p c).stop = ⟨c.offset + utf8Len ds, rest⟩ := by
  obtain ⟨offset, cs⟩ := c
  obtain rfl : cs = ds ++ rest := hrest
  cases ds with
  | nil => exact hds.elim
  | cons d ds =>
    have hstep : digitsAt p ⟨offset, d :: ds ++ rest⟩ =
        digitRun p true false (offset + d.utf8Size) (ds ++ rest) := by
      simp [digitsAt, digitRun, hds.1]
    rw [hstep, digitRun_begun hds.2 hend, String.utf8Len_cons]
    congr 1
    dsimp only
    omega

/-- The characters ahead are a run of digits and what is behind it, or begin with no digit. -/
theorem exists_run (p : Char → Bool) (cs : List Char) :
    (∀ c ∈ cs.head?, p c = false) ∨
      ∃ ds rest, cs = ds ++ rest ∧ IsRun p ds ∧ EndsRun p rest := by
  cases cs with
  | nil => exact .inl nofun
  | cons c cs =>
    cases hc : p c with
    | false =>
      left
      intro d hd
      cases hd
      exact hc
    | true =>
      right
      let inside : Char → Bool := fun d => p d || d = '_'
      refine ⟨c :: cs.takeWhile inside, cs.dropWhile inside, ?_, ⟨hc, ?_⟩, ?_⟩
      · rw [List.cons_append, List.takeWhile_append_dropWhile]
      · intro d hd
        simpa [inside] using List.all_eq_true.1 List.all_takeWhile d hd
      · intro d hd
        have hnot := List.head?_dropWhile_not inside cs
        rw [Option.mem_def.1 hd] at hnot
        simpa [inside] using hnot

/-- The digits that are read are a run up to its end, or none where no digit is ahead. -/
theorem digitsAt_cases (p : Char → Bool) (c : Cursor) :
    (digitsAt p c).stop = c ∧ (∀ ch ∈ c.rest.head?, p ch = false) ∨
      ∃ ds, c.rest = ds ++ (digitsAt p c).stop.rest ∧ IsRun p ds ∧
        EndsRun p (digitsAt p c).stop.rest := by
  obtain ⟨offset, cs⟩ := c
  rcases exists_run p cs with hnone | ⟨ds, rest, rfl, hds, hend⟩
  · refine .inl ⟨?_, hnone⟩
    cases cs with
    | nil => rfl
    | cons c cs => simp [digitsAt, digitRun, hnone c rfl]
  · rw [digitsAt_of_run rfl hds hend]
    exact .inr ⟨ds, rfl, hds, hend⟩

/-- No digit is ahead where digits were read. -/
theorem head_digitsAt (p : Char → Bool) (c : Cursor) :
    ∀ ch ∈ (digitsAt p c).stop.rest.head?, p ch = false := by
  intro ch hch
  rcases digitsAt_cases p c with ⟨hstop, hnone⟩ | ⟨ds, -, -, hend⟩
  · rw [hstop] at hch
    exact hnone ch hch
  · exact (hend ch hch).1

end Runs

-- ---------------------------------------------------------------------------
-- Decimal numerals
-- ---------------------------------------------------------------------------

/-- No digit is ahead. -/
def Numeral.NoDigitAhead (n : Numeral) : Prop := ∀ ch ∈ n.stop.rest.head?, isDigit ch = false

theorem readFraction_noDigitAhead {n : Numeral} (h : n.NoDigitAhead) :
    (readFraction n).NoDigitAhead := by
  unfold readFraction
  split
  · exact head_digitsAt isDigit n.stop.advance
  · exact h

theorem readExponent_noDigitAhead {n : Numeral} (h : n.NoDigitAhead) :
    (readExponent n).NoDigitAhead := by
  unfold readExponent
  split
  · exact head_digitsAt isDigit _
  · exact head_digitsAt isDigit _
  · exact h

theorem readDecimal_noDigitAhead (flags : TokenFlags) (c : Cursor) :
    (readDecimal flags c).NoDigitAhead :=
  readExponent_noDigitAhead (readFraction_noDigitAhead (head_digitsAt isDigit c))

/-- A numeral that may be a big integer has no fraction. -/
theorem readFraction_of_whole {n : Numeral} (h : (readFraction n).whole = true) :
    readFraction n = n ∧ n.stop.rest.head? ≠ some '.' := by
  unfold readFraction at *
  split at h
  · cases h
  · case _ hpoint =>
    refine ⟨rfl, fun hhead => ?_⟩
    obtain ⟨rest, hrest⟩ := List.head?_eq_some_iff.1 hhead
    exact hpoint rest hrest

/-- A numeral that may be a big integer has no exponent. -/
theorem readExponent_of_whole {n : Numeral} (h : (readExponent n).whole = true) :
    readExponent n = n := by
  unfold readExponent at *
  split at h
  · cases h
  · cases h
  · rfl

-- ---------------------------------------------------------------------------
-- Whole numerals
-- ---------------------------------------------------------------------------

/-- A numeral without fraction and exponent: decimal digits, or a radix sign and digits of
its radix. -/
inductive WholeNumeral : List Char → Prop
  | decimal {ds : List Char} (hds : IsRun isDigit ds) : WholeNumeral ds
  | radix {r : Char} {p : Char → Bool} {ds : List Char} (hr : radixDigits? r = some p)
    (hds : IsRun p ds) : WholeNumeral ('0' :: r :: ds)

section Whole

variable {flags : TokenFlags} {c : Cursor} {r x : Char} {p : Char → Bool} {ds rest : List Char}

theorem readNumeral_radix (hr : radixDigits? r = some p) (hrest : c.rest = '0' :: r :: rest) :
    readNumeral flags c = readRadix p flags (c.drop 2) := by
  rw [readNumeral, hrest]
  simp only [hr]

/-- A numeral has a radix sign, or it is decimal. -/
theorem readNumeral_cases (flags : TokenFlags) (c : Cursor) :
    (∃ r p rest, radixDigits? r = some p ∧ c.rest = '0' :: r :: rest) ∨
      readNumeral flags c = readDecimal flags c := by
  unfold readNumeral
  split
  · case _ r rest hrest =>
    cases hr : radixDigits? r with
    | some p => exact .inl ⟨r, p, rest, hr, hrest⟩
    | none => exact .inr rfl
  · exact .inr rfl

theorem rest_drop_two (hrest : c.rest = '0' :: r :: rest) : (c.drop 2).rest = rest := by
  obtain ⟨offset, cs⟩ := c
  obtain rfl : cs = '0' :: r :: rest := hrest
  rfl

/-- Digits behind a radix sign that are no fault are a run up to its end. -/
theorem exists_run_of_readRadix (hfault : (readRadix p flags c).fault = none) :
    ∃ ds, c.rest = ds ++ (readRadix p flags c).stop.rest ∧ IsRun p ds ∧
      EndsRun p (readRadix p flags c).stop.rest := by
  rcases digitsAt_cases p c with ⟨hstop, -⟩ | hrun
  · simp [readRadix, hstop] at hfault
  · exact hrun

/-- What may be a big integer is a whole numeral. -/
theorem wholeNumeral_of_readNumeral (hwhole : (readNumeral flags c).whole = true)
    (hfault : (readNumeral flags c).fault = none)
    (hbegins : ∀ ch ∈ c.rest.head?, isDigit ch = true ∨ ch = '.') (hne : c.rest ≠ []) :
    ∃ ds, WholeNumeral ds ∧ c.rest = ds ++ (readNumeral flags c).stop.rest := by
  rcases readNumeral_cases flags c with ⟨r, p, rest, hr, hrest⟩ | hdecimal
  · rw [readNumeral_radix hr hrest] at hfault ⊢
    obtain ⟨ds, hds, hrun, -⟩ := exists_run_of_readRadix hfault
    rw [rest_drop_two hrest] at hds
    refine ⟨'0' :: r :: ds, .radix hr hrun, ?_⟩
    rw [hrest, hds]
    rfl
  · rw [hdecimal] at hwhole ⊢
    unfold readDecimal at *
    have hexponent := readExponent_of_whole hwhole
    rw [hexponent] at hwhole ⊢
    obtain ⟨hfraction, hpoint⟩ := readFraction_of_whole hwhole
    rw [hfraction]
    rcases digitsAt_cases isDigit c with ⟨hstop, hnone⟩ | ⟨ds, hds, hrun, -⟩
    · -- then a point would be ahead
      exfalso
      obtain ⟨ch, cs, hcs⟩ := List.exists_cons_of_ne_nil hne
      have hhead : c.rest.head? = some ch := by rw [hcs]; rfl
      rcases hbegins ch hhead with hdigit | rfl
      · exact absurd hdigit (by simp [hnone ch hhead])
      · exact hpoint (by rw [hstop]; exact hhead)
    · exact ⟨ds, .decimal hrun, hds⟩

theorem isDigit_of_radixDigits? (hr : radixDigits? r = some p) :
    p = isHexDigit ∨ p = isOctalDigit ∨ p = isBinaryDigit := by
  unfold radixDigits? at hr
  split at hr
  case h_7 => cases hr
  all_goals
    cases hr
    simp

theorem readRadix_of_run (flags : TokenFlags) (hrest : c.rest = ds ++ rest) (hds : IsRun p ds)
    (hend : EndsRun p rest) :
    (readRadix p flags c).whole = true ∧ (readRadix p flags c).fault = none ∧
      (readRadix p flags c).stop.rest = rest := by
  have hstop := digitsAt_of_run hrest hds hend
  have hpos : utf8Len ds ≠ 0 := by
    cases ds with
    | nil => exact hds.elim
    | cons d ds =>
      have hsize := d.utf8Size_pos
      rw [String.utf8Len_cons]
      omega
  refine ⟨rfl, ?_, ?_⟩
  · simp [readRadix, hstop, hpos]
  · simp [readRadix, hstop]

/-- Neither a point nor the sign of an exponent is ahead. -/
theorem readExponent_readFraction {n : Numeral} (hrest : n.stop.rest = x :: rest)
    (hx : x ≠ '.' ∧ x ≠ 'e' ∧ x ≠ 'E') : readExponent (readFraction n) = n := by
  have hfraction : readFraction n = n := by
    unfold readFraction
    split
    · case _ hpoint => exact absurd (List.cons.inj (hrest.symm.trans hpoint)).1 hx.1
    · rfl
  rw [hfraction]
  unfold readExponent
  split
  · case _ hexponent => exact absurd (List.cons.inj (hrest.symm.trans hexponent)).1 hx.2.1
  · case _ hexponent => exact absurd (List.cons.inj (hrest.symm.trans hexponent)).1 hx.2.2
  · rfl

/-- No radix sign is behind the first digit of a decimal run and the suffix of a big
integer. -/
theorem readNumeral_of_decimal (hds : IsRun isDigit ds) (hrest : c.rest = ds ++ 'n' :: rest) :
    readNumeral flags c = readDecimal flags c := by
  rcases readNumeral_cases flags c with ⟨r, p, more, hr, hmore⟩ | hdecimal
  · exfalso
    rw [hmore] at hrest
    have hsign : isDigit r = true ∨ r = '_' ∨ r = 'n' := by
      match ds, hds, hrest with
      | [d], _, hrest => exact .inr (.inr (List.cons.inj (List.cons.inj hrest).2).1)
      | d :: e :: ds, hds, hrest =>
        obtain rfl : r = e := (List.cons.inj (List.cons.inj hrest).2).1
        exact (hds.2 r (List.mem_cons_self ..)).imp_right .inl
    rcases hsign with hdigit | rfl | rfl
    · have hnone : (radixDigits? r).isNone = true :=
        of_isDigit (P := fun d => (radixDigits? d).isNone = true) (by decide) hdigit
      rw [hr] at hnone
      cases hnone
    · cases hr
    · cases hr
  · exact hdecimal

/-- A whole numeral is read as one before the suffix of a big integer. -/
theorem readNumeral_of_wholeNumeral (flags : TokenFlags) (h : WholeNumeral ds)
    (hrest : c.rest = ds ++ 'n' :: rest) :
    (readNumeral flags c).whole = true ∧ (readNumeral flags c).fault = none ∧
      (readNumeral flags c).stop.rest = 'n' :: rest := by
  cases h with
  | decimal hds =>
    have hend : EndsRun isDigit ('n' :: rest) := by
      intro ch hch
      cases hch
      decide
    have hstop := digitsAt_of_run hrest hds hend
    rw [readNumeral_of_decimal hds hrest, readDecimal,
      readExponent_readFraction (by rw [hstop]) (by decide), hstop]
    exact ⟨rfl, rfl, rfl⟩
  | @radix r p ds hr hds =>
    have hend : EndsRun p ('n' :: rest) := by
      intro ch hch
      cases hch
      rcases isDigit_of_radixDigits? hr with rfl | rfl | rfl <;> decide
    rw [readNumeral_radix hr hrest]
    exact readRadix_of_run flags (rest_drop_two hrest) hds hend

end Whole

-- ---------------------------------------------------------------------------
-- One token
-- ---------------------------------------------------------------------------

section Scan

variable {flags : TokenFlags} {c : Cursor} {ch : Char} {cs : List Char}

theorem scanAt_of_beginsNumeral (h : BeginsNumeral c.rest) :
    scanAt flags c = scanNumber flags c := by
  cases hrest : c.rest with
  | nil =>
    rw [hrest] at h
    exact h.elim
  | cons ch cs =>
    rw [hrest] at h
    have hquote : (ch = '"' || ch = '\'') = false ∧ ch ≠ '`' := by
      rcases h with hdigit | ⟨rfl, -⟩
      · exact of_isDigit (P := fun d => (d = '"' || d = '\'') = false ∧ d ≠ '`') (by decide)
          hdigit
      · decide
    have hnumber : (isDigit ch || (ch = '.' && cs.head?.any isDigit)) = true := by
      rcases h with hdigit | ⟨rfl, hdigit⟩
      · simp [hdigit]
      · simp [hdigit]
    unfold scanAt
    rw [hrest]
    simp only [hquote.1, hquote.2, hnumber, Bool.false_eq_true, if_false, if_true]

/-- A token is a numeral only where numerals are read. -/
theorem scanAt_eq_scanNumber (h : (scanAt flags c).kind.IsNumeral) :
    scanAt flags c = scanNumber flags c ∧ BeginsNumeral c.rest := by
  rcases scanAt_eq_or flags c with hother | heq | hnumber
  · rcases h.cases with hkind | hkind
    · rw [hkind] at hother
      exact hother.elim
    · rw [hkind] at hother
      exact hother.elim
  · rw [heq] at h
    rcases scanPunctuator_kind flags c with ⟨p, hp⟩ | hunknown
    · rw [hp] at h
      exact h.elim
    · rw [hunknown] at h
      exact h.elim
  · exact hnumber

theorem scanNumber_number (h : (scanNumber flags c).kind = .number) :
    (readNumeral flags c).fault = none ∧
      (readNumeral flags c).stop.peek?.any isNameStart = false ∧
      (scanNumber flags c).stop = (readNumeral flags c).stop := by
  revert h
  unfold scanNumber
  dsimp only
  split
  · exact nofun
  case _ hfault =>
  split
  · exact nofun
  split
  · exact nofun
  case _ hname =>
  intro _
  exact ⟨by simpa using hfault, by simpa using hname, rfl⟩

theorem scanNumber_bigInt (h : (scanNumber flags c).kind = .bigInt) :
    (readNumeral flags c).fault = none ∧ (readNumeral flags c).whole = true ∧
      (readNumeral flags c).stop.peek? = some 'n' ∧
      (scanNumber flags c).stop = (readNumeral flags c).stop.advance := by
  revert h
  unfold scanNumber
  dsimp only
  split
  · exact nofun
  case _ hfault =>
  split
  · case _ hsuffix =>
    rw [Bool.and_eq_true, decide_eq_true_eq] at hsuffix
    intro _
    exact ⟨by simpa using hfault, hsuffix.1, hsuffix.2, rfl⟩
  split
  · exact nofun
  · exact nofun

-- ---------------------------------------------------------------------------
-- What follows
-- ---------------------------------------------------------------------------

/-- A name start or a digit directly follows a token. -/
def Token.RunsOn (t : Token) : Prop :=
  ∃ x ∈ t.stop.rest.head?, isNameStart x = true ∨ isDigit x = true

/-- The ends of numerals that are not looked at, each with a name start or a digit behind
it: that of a big integer, and that of digits with a radix sign, before a decimal digit. -/
inductive UncheckedEnd : List Char → Prop
  | suffix {ds rest : List Char} {x : Char} (hds : WholeNumeral ds)
    (hx : isNameStart x = true ∨ isDigit x = true) : UncheckedEnd (ds ++ 'n' :: x :: rest)
  | radix {r x : Char} {p : Char → Bool} {ds rest : List Char} (hr : radixDigits? r = some p)
    (hds : IsRun p ds) (hx : isDigit x = true) (hp : p x = false) :
    UncheckedEnd ('0' :: r :: (ds ++ x :: rest))

/-- What follows a big integer directly follows its suffix. -/
theorem uncheckedEnd_of_bigInt (hkind : (scanNumber flags c).kind = .bigInt)
    (hbegins : BeginsNumeral c.rest) (hon : (scanNumber flags c).RunsOn) :
    UncheckedEnd c.rest := by
  obtain ⟨hfault, hwhole, hsuffix, hstop⟩ := scanNumber_bigInt hkind
  obtain ⟨rest, hrest⟩ := List.head?_eq_some_iff.1 hsuffix
  obtain ⟨ch, cs, hcs⟩ : ∃ ch cs, c.rest = ch :: cs := by
    cases hcs : c.rest with
    | nil =>
      rw [hcs] at hbegins
      exact hbegins.elim
    | cons ch cs => exact ⟨ch, cs, rfl⟩
  have hhead : ∀ d ∈ c.rest.head?, isDigit d = true ∨ d = '.' := by
    rw [hcs] at hbegins ⊢
    intro d hd
    cases hd
    exact hbegins.imp_right And.left
  obtain ⟨ds, hds, hsplit⟩ := wholeNumeral_of_readNumeral hwhole hfault hhead (by simp [hcs])
  obtain ⟨x, hx, hfollows⟩ := hon
  have hadvance : (readNumeral flags c).stop.advance.rest = rest := by
    rw [Cursor.advance, hrest]
  rw [hstop, hadvance] at hx
  obtain ⟨more, rfl⟩ := List.head?_eq_some_iff.1 hx
  rw [hsplit, hrest]
  exact .suffix hds hfollows

/-- What follows a number directly is a digit, and the number has a radix sign. -/
theorem uncheckedEnd_of_number (hkind : (scanNumber flags c).kind = .number)
    (hon : (scanNumber flags c).RunsOn) : UncheckedEnd c.rest := by
  obtain ⟨hfault, hname, hstop⟩ := scanNumber_number hkind
  obtain ⟨x, hx, hfollows⟩ := hon
  rw [hstop] at hx
  have hnot : isNameStart x = false := by
    rw [Cursor.peek?, Option.mem_def.1 hx] at hname
    exact hname
  have hdigit : isDigit x = true := by simpa [hnot] using hfollows
  rcases readNumeral_cases flags c with ⟨r, p, rest, hr, hrest⟩ | hdecimal
  · rw [readNumeral_radix hr hrest] at hfault hx
    obtain ⟨ds, hds, hrun, hend⟩ := exists_run_of_readRadix hfault
    obtain ⟨more, hmore⟩ := List.head?_eq_some_iff.1 hx
    rw [rest_drop_two hrest, hmore] at hds
    rw [hrest, hds]
    exact .radix hr hrun hdigit (hend x hx).1
  · rw [hdecimal] at hx
    exact absurd hdigit (by simp [readDecimal_noDigitAhead flags c x hx])

theorem uncheckedEnd_of_scanNumber (hkind : (scanNumber flags c).kind.IsNumeral)
    (hbegins : BeginsNumeral c.rest) (hon : (scanNumber flags c).RunsOn) :
    UncheckedEnd c.rest := by
  rcases hkind.cases with hnumber | hbig
  · exact uncheckedEnd_of_number hnumber hon
  · exact uncheckedEnd_of_bigInt hbig hbegins hon

theorem WholeNumeral.beginsNumeral {ds : List Char} (h : WholeNumeral ds) (rest : List Char) :
    BeginsNumeral (ds ++ rest) := by
  cases h with
  | decimal hds =>
    cases ds with
    | nil => exact hds.elim
    | cons d ds => exact .inl hds.1
  | radix hr hds => exact .inl (by decide)

/-- At the ends that are not looked at, a numeral is read, and the text runs on. -/
theorem scanNumber_of_uncheckedEnd (flags : TokenFlags) (h : UncheckedEnd c.rest) :
    BeginsNumeral c.rest ∧ (scanNumber flags c).kind.IsNumeral ∧ (scanNumber flags c).RunsOn := by
  generalize hrest : c.rest = cs at h
  cases h with
  | @suffix ds rest x hds hx =>
    obtain ⟨hwhole, hfault, hstop⟩ := readNumeral_of_wholeNumeral flags hds hrest
    have hscan : scanNumber flags c = ⟨.bigInt, c, (readNumeral flags c).stop.advance,
        c.textTo (readNumeral flags c).stop.advance, (readNumeral flags c).flags, none⟩ := by
      simp [scanNumber, hwhole, hfault, Cursor.peek?, hstop]
    rw [hscan]
    refine ⟨hds.beginsNumeral _, trivial, x, ?_, hx⟩
    simp [Cursor.advance, hstop]
  | @radix r x p ds rest hr hds hx hp =>
    have hline : x ≠ '_' ∧ x ≠ 'n' := by
      constructor
      · rintro rfl
        exact absurd hx (by decide)
      · rintro rfl
        exact absurd hx (by decide)
    have hend : EndsRun p (x :: rest) := by
      intro ch hch
      cases hch
      exact ⟨hp, hline.1⟩
    obtain ⟨hwhole, hfault, hstop⟩ :=
      readRadix_of_run flags (rest_drop_two hrest) hds hend
    rw [← readNumeral_radix hr hrest] at hwhole hfault hstop
    have hscan : scanNumber flags c = ⟨.number, c, (readNumeral flags c).stop,
        c.textTo (readNumeral flags c).stop, (readNumeral flags c).flags, none⟩ := by
      simp [scanNumber, hfault, Cursor.peek?, hstop, hline.2, not_isNameStart_of_isDigit hx]
    rw [hscan]
    exact ⟨.inl (by decide), trivial, x, by simp [hstop], .inr hx⟩

end Scan

-- ---------------------------------------------------------------------------
-- The next token
-- ---------------------------------------------------------------------------

namespace Token

variable {t : Token}

/-- Where a token begins as a numeral, one is read. -/
theorem next_eq_scanNumber (h : BeginsNumeral t.next.start.rest) :
    ∃ flags, t.next = scanNumber flags t.next.start := by
  have hslash : t.next.start.rest.head? ≠ some '/' := by
    intro hhead
    obtain ⟨cs, hcs⟩ := List.head?_eq_some_iff.1 hhead
    rw [hcs] at h
    revert h
    simp [BeginsNumeral, show isDigit '/' = false by decide]
  obtain ⟨flags, heq⟩ := after_eq_scanAt (c := t.stop) hslash
  exact ⟨flags, heq.trans (scanAt_of_beginsNumeral h)⟩

/-- A token that is a numeral begins as one. -/
theorem beginsNumeral_next (h : t.next.kind.IsNumeral) : BeginsNumeral t.next.start.rest := by
  have hsignificant : t.next.Significant := by
    rcases h.cases with hnumber | hbig
    · exact .of_kind_eq hnumber rfl
    · exact .of_kind_eq hbig rfl
  obtain ⟨-, flags, heq⟩ := after_significant (c := t.stop) hsignificant
  rw [next_eq, heq] at h ⊢
  rw [(scanAt_liesAt flags _).start_eq]
  exact (scanAt_eq_scanNumber h).2

end Token

/-- A numeral is directly followed by a name start or a digit at two ends only: behind the
suffix of a big integer, and behind the digits of a radix where a decimal digit follows
that is none of them. There the text is split, and the next token begins where the numeral
stops. At all other ends, what begins as a numeral and runs on so is a fault. -/
theorem runsOn_iff_uncheckedEnd (t : Token) :
    (t.next.kind.IsNumeral ∧ t.next.RunsOn ↔ UncheckedEnd t.next.start.rest) ∧
      (UncheckedEnd t.next.start.rest → t.next.next.start = t.next.stop) ∧
      (BeginsNumeral t.next.start.rest → t.next.kind.IsNumeral ∨
        t.next.kind = .unknown ∧ t.next.fault.isSome = true) := by
  have hback : UncheckedEnd t.next.start.rest → t.next.kind.IsNumeral ∧ t.next.RunsOn := by
    intro h
    have hbegins := (scanNumber_of_uncheckedEnd {} h).1
    obtain ⟨flags, heq⟩ := Token.next_eq_scanNumber hbegins
    rw [heq]
    exact (scanNumber_of_uncheckedEnd flags h).2
  refine ⟨⟨?_, hback⟩, ?_, ?_⟩
  · rintro ⟨hkind, hon⟩
    have hbegins := Token.beginsNumeral_next hkind
    obtain ⟨flags, heq⟩ := Token.next_eq_scanNumber hbegins
    rw [heq] at hkind hon
    exact uncheckedEnd_of_scanNumber hkind hbegins hon
  · intro h
    obtain ⟨-, x, hx, hfollows⟩ := hback h
    obtain ⟨cs, hcs⟩ := List.head?_eq_some_iff.1 hx
    rw [Token.next_eq t.next]
    refine Token.start_after_of_begins ?_
    rw [hcs]
    exact begins_cons hfollows cs
  · intro hbegins
    obtain ⟨flags, heq⟩ := Token.next_eq_scanNumber hbegins
    rw [heq]
    exact scanNumber_kind flags _

/-- Two numbers are read where a binary one is written with a wrong digit. -/
theorem runsOn_iff_uncheckedEnd_binary :
    let t := Token.initial "0b12"
    UncheckedEnd t.next.start.rest ∧ (t.next.kind.IsNumeral ∧ t.next.RunsOn) ∧
      t.next.next.start = t.next.stop := by
  intro t
  have hend : UncheckedEnd t.next.start.rest :=
    @UncheckedEnd.radix 'b' '2' isBinaryDigit ['1'] [] rfl ⟨by decide, nofun⟩ (by decide)
      (by decide)
  exact ⟨hend, (runsOn_iff_uncheckedEnd t).1.2 hend, (runsOn_iff_uncheckedEnd t).2.1 hend⟩

end ModuleBundler
