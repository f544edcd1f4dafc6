import ModuleBundler.Proofs.Cursors
import ModuleBundler.Token.Lookahead

/-!
# ModuleBundler — where tokens lie

A token is read from the cursor behind the token before it. It begins at or
after that cursor and stops at or after its own beginning, always on the same
text; and nothing but white space, line terminators and comments is passed
before it.

* `Token.after` — the token that follows a cursor.
* `Begins` — the characters with which a token can begin.
* `Token.Significant` — tokens that are neither the end of the text nor a fault.
* `Token.start_after_of_begins`, `Token.start_after_line` — which token follows a
  cursor, when the characters ahead begin one.
* `Reads` — tokens that are read one after the other.
-/

namespace ModuleBundler

open Text
open String (utf8Len)

-- ---------------------------------------------------------------------------
-- Trivia
-- ---------------------------------------------------------------------------

/-- Characters with which a token begins: no line terminator, no white space, no
comment and no interpreter line. -/
def Begins : List Char → Prop
  | [] => False
  | c :: cs =>
    isLineBreak c = false ∧ isBlank c = false ∧
      (c = '/' → cs.head? ≠ some '/' ∧ cs.head? ≠ some '*') ∧ (c = '#' → cs.head? ≠ some '!')

/-- Only the first two characters matter. A line feed after the first one does
no harm. -/
theorem Begins.append_newline {cs cs' rest : List Char} (h : Begins (cs ++ cs')) (hne : cs ≠ []) :
    Begins (cs ++ '\n' :: rest) := by
  match cs, hne, h with
  | c :: [], _, h => exact ⟨h.1, h.2.1, fun _ => by simp, fun _ => by simp⟩
  | c :: d :: cs, _, h => exact ⟨h.1, h.2.1, h.2.2.1, h.2.2.2⟩

theorem skipTrivia_before (region : TriviaRegion) (lineBreak : Bool) (offset : Nat)
    (cs : List Char) :
    Cursor.Before ⟨offset, cs⟩ (skipTrivia region lineBreak offset cs).stop := by
  induction cs generalizing region lineBreak offset with
  | nil => exact .refl _
  | cons c cs ih =>
    have hstep := Cursor.Before.of_cons offset c cs
    cases region with
    | outside =>
      simp only [skipTrivia]
      split
      · exact hstep.trans (ih ..)
      split
      · exact hstep.trans (ih ..)
      split
      · exact hstep.trans (ih ..)
      split
      · exact hstep.trans (ih ..)
      · exact .refl _
    | lineComment =>
      simp only [skipTrivia]
      split <;> exact hstep.trans (ih ..)
    | blockOpening opening => exact hstep.trans (ih ..)
    | blockComment opening =>
      simp only [skipTrivia]
      split <;> exact hstep.trans (ih ..)
    | blockClosing => exact hstep.trans (ih ..)

/-- A comment that is not closed begins on the way, and the text ends in it. -/
theorem skipTrivia_unclosed {origin : Cursor} (region : TriviaRegion) (lineBreak : Bool)
    (offset : Nat) (cs : List Char) (ho : origin.Before ⟨offset, cs⟩)
    (hr : ∀ o, region.unclosed = some o → origin.Before o ∧ o.Before ⟨offset, cs⟩) :
    ∀ o, (skipTrivia region lineBreak offset cs).unclosed = some o →
      origin.Before o ∧ o.Before (skipTrivia region lineBreak offset cs).stop := by
  induction cs generalizing region lineBreak offset with
  | nil => exact hr
  | cons c cs ih =>
    have hstep := Cursor.Before.of_cons offset c cs
    have hnext := ho.trans hstep
    have hnone : ∀ o, TriviaRegion.unclosed .outside = some o →
        origin.Before o ∧ o.Before ⟨offset + c.utf8Size, cs⟩ := by
      intro o h
      exact nomatch h
    cases region with
    | outside =>
      simp only [skipTrivia]
      split
      · exact ih .lineComment _ _ hnext hnone
      split
      · refine ih (.blockOpening ⟨offset, c :: cs⟩) _ _ hnext ?_
        intro o h
        obtain rfl := Option.some.inj h
        exact ⟨ho, hstep⟩
      split
      · exact ih _ _ _ hnext hnone
      split
      · exact ih _ _ _ hnext hnone
      · intro o h
        exact nomatch h
    | lineComment =>
      simp only [skipTrivia]
      split
      · exact ih .outside _ _ hnext hnone
      · exact ih .lineComment _ _ hnext hnone
    | blockOpening opening =>
      refine ih (.blockComment opening) _ _ hnext ?_
      intro o h
      exact ⟨(hr o h).1, (hr o h).2.trans hstep⟩
    | blockComment opening =>
      simp only [skipTrivia]
      split
      · exact ih .blockClosing _ _ hnext hnone
      · refine ih (.blockComment opening) _ _ hnext ?_
        intro o h
        exact ⟨(hr o h).1, (hr o h).2.trans hstep⟩
    | blockClosing => exact ih .outside _ _ hnext hnone

/-- What trivia stop at is no trivia. -/
theorem skipTrivia_stop (region : TriviaRegion) (lineBreak : Bool) (offset : Nat)
    {cs : List Char} {d : Char} {ds : List Char}
    (h : (skipTrivia region lineBreak offset cs).stop.rest = d :: ds) :
    isLineBreak d = false ∧ isBlank d = false ∧
      (d = '/' → ds.head? ≠ some '/' ∧ ds.head? ≠ some '*') := by
  induction cs generalizing region lineBreak offset with
  | nil => exact nomatch h
  | cons c cs ih =>
    cases region with
    | outside =>
      simp only [skipTrivia] at h
      split at h
      · exact ih _ _ _ h
      split at h
      · exact ih _ _ _ h
      split at h
      · exact ih _ _ _ h
      split at h
      · exact ih _ _ _ h
      · obtain ⟨rfl, rfl⟩ := List.cons.inj h
        simp_all
    | lineComment =>
      simp only [skipTrivia] at h
      split at h <;> exact ih _ _ _ h
    | blockOpening opening => exact ih _ _ _ h
    | blockComment opening =>
      simp only [skipTrivia] at h
      split at h <;> exact ih _ _ _ h
    | blockClosing => exact ih _ _ _ h

/-- Nothing is passed where a token begins. -/
theorem skipTrivia_of_begins {cs : List Char} (h : Begins cs) (lineBreak : Bool) (offset : Nat) :
    skipTrivia .outside lineBreak offset cs = ⟨lineBreak, ⟨offset, cs⟩, none⟩ := by
  match cs, h with
  | c :: cs, ⟨hline, hblank, hslash, _⟩ =>
    by_cases hc : c = '/'
    · simp [skipTrivia, hc, hslash hc, isLineBreak, isBlank, isWideSpace]
    · simp [skipTrivia, hc, hline, hblank]

theorem skipTrivia_newline (lineBreak : Bool) (offset : Nat) (cs : List Char) :
    skipTrivia .outside lineBreak offset ('\n' :: cs) =
      skipTrivia .outside true (offset + 1) cs := by
  simp [skipTrivia, isLineBreak, Char.utf8Size]

theorem skipInterpreterLine_before (c : Cursor) : c.Before (skipInterpreterLine c) := by
  unfold skipInterpreterLine
  split
  · exact .skipWhile _ c
  · exact .refl c

theorem skipInterpreterLine_of_begins {c : Cursor} (h : Begins c.rest) :
    skipInterpreterLine c = c := by
  unfold skipInterpreterLine
  split
  · case _ hrest =>
    rw [hrest] at h
    exact absurd rfl (h.2.2.2 rfl)
  · rfl

-- ---------------------------------------------------------------------------
-- Literals
-- ---------------------------------------------------------------------------

theorem readString_before (quote : Char) (skip offset : Nat) (value : String) (cs : List Char) :
    Cursor.Before ⟨offset, cs⟩ (readString quote skip offset value cs).stop := by
  induction cs generalizing skip offset value with
  | nil => exact .refl _
  | cons c cs ih =>
    have hstep := Cursor.Before.of_cons offset c cs
    cases skip with
    | succ k => exact hstep.trans (ih ..)
    | zero =>
      simp only [readString]
      split
      · exact hstep
      split
      · exact hstep.trans (ih ..)
      split
      · exact .refl _
      · exact hstep.trans (ih ..)

theorem readTemplate_before (skip offset : Nat) (value : String) (cs : List Char) :
    Cursor.Before ⟨offset, cs⟩ (readTemplate skip offset value cs).stop := by
  induction cs generalizing skip offset value with
  | nil => exact .refl _
  | cons c cs ih =>
    have hstep := Cursor.Before.of_cons offset c cs
    cases skip with
    | succ k => exact hstep.trans (ih ..)
    | zero =>
      simp only [readTemplate]
      split
      · exact hstep
      split
      · exact hstep.trans (ih ..)
      split
      · exact hstep.trans (.of_cons _ '{' _)
      · exact hstep.trans (ih ..)

theorem digitRun_before (p : Char → Bool) (begun separator : Bool) (offset : Nat)
    (cs : List Char) : Cursor.Before ⟨offset, cs⟩ (digitRun p begun separator offset cs).stop := by
  induction cs generalizing begun separator offset with
  | nil => exact .refl _
  | cons c cs ih =>
    have hstep := Cursor.Before.of_cons offset c cs
    unfold digitRun
    split
    · exact hstep.trans (ih ..)
    split
    · exact hstep.trans (ih ..)
    · exact .refl _

theorem digitsAt_before (p : Char → Bool) (c : Cursor) : c.Before (digitsAt p c).stop :=
  digitRun_before p false false c.offset c.rest

theorem readFraction_before (n : Numeral) : n.stop.Before (readFraction n).stop := by
  unfold readFraction
  split
  · exact (Cursor.Before.advance n.stop).trans (digitsAt_before _ _)
  · exact .refl _

theorem readExponent_before (n : Numeral) : n.stop.Before (readExponent n).stop := by
  have hsign := Cursor.Before.advance n.stop
  unfold readExponent
  split
  · dsimp only
    split
    · exact hsign.trans ((Cursor.Before.advance _).trans (digitsAt_before _ _))
    · exact hsign.trans (digitsAt_before _ _)
  · dsimp only
    split
    · exact hsign.trans ((Cursor.Before.advance _).trans (digitsAt_before _ _))
    · exact hsign.trans (digitsAt_before _ _)
  · exact .refl _

theorem readDecimal_before (flags : TokenFlags) (c : Cursor) :
    c.Before (readDecimal flags c).stop := by
  refine (digitsAt_before isDigit c).trans ?_
  exact (readFraction_before ⟨(digitsAt isDigit c).stop, _, _, _⟩).trans (readExponent_before _)

theorem readNumeral_before (flags : TokenFlags) (c : Cursor) :
    c.Before (readNumeral flags c).stop := by
  unfold readNumeral
  split
  · split
    · exact (Cursor.Before.drop 2 c).trans (digitsAt_before _ _)
    · exact readDecimal_before flags c
  · exact readDecimal_before flags c

theorem digitsAt_lt {p : Char → Bool} {c : Cursor} {ch : Char} {cs : List Char}
    (h : c.rest = ch :: cs) (hp : p ch = true) : c.offset < (digitsAt p c).stop.offset := by
  have hpos := ch.utf8Size_pos
  have hrun : c.offset + ch.utf8Size ≤
      (digitRun p true false (c.offset + ch.utf8Size) cs).stop.offset :=
    (digitRun_before p true false _ cs).offset_le
  simp only [digitsAt, h, digitRun, if_pos hp]
  omega

/-- A numeral takes a character: it begins with a digit, or with a point. -/
theorem readDecimal_lt {flags : TokenFlags} {c : Cursor} {ch : Char} {cs : List Char}
    (h : c.rest = ch :: cs) (hch : isDigit ch = true ∨ ch = '.') :
    c.offset < (readDecimal flags c).stop.offset := by
  have hexp := fun n => (readExponent_before n).offset_le
  rcases hch with hdigit | rfl
  · refine Nat.lt_of_lt_of_le (digitsAt_lt h hdigit) (Nat.le_trans ?_ (hexp _))
    exact (readFraction_before ⟨(digitsAt isDigit c).stop, _, _, _⟩).offset_le
  · have hrun : (digitsAt isDigit c).stop = c := by
      cases c
      simp_all [digitsAt, digitRun, isDigit]
    refine Nat.lt_of_lt_of_le ?_ (hexp _)
    have hadv := Cursor.offset_advance_lt h
    have hle := (digitsAt_before isDigit c.advance).offset_le
    simp only [readFraction, hrun, h]
    omega

theorem readNumeral_lt {flags : TokenFlags} {c : Cursor} {ch : Char} {cs : List Char}
    (h : c.rest = ch :: cs) (hch : isDigit ch = true ∨ ch = '.') :
    c.offset < (readNumeral flags c).stop.offset := by
  unfold readNumeral
  split
  · split
    · have hadv := Cursor.offset_advance_lt h
      have hdrop : c.advance.offset ≤ (c.drop 2).offset :=
        (Cursor.Before.drop 1 c.advance).offset_le
      have hle := (digitsAt_before (by assumption) (c.drop 2)).offset_le
      simp only [readRadix]
      omega
    · exact readDecimal_lt h hch
  · exact readDecimal_lt h hch

-- ---------------------------------------------------------------------------
-- One token
-- ---------------------------------------------------------------------------

/-- A token that begins at a cursor and stops at or after it. Unless it is the
end of the text it is not empty. -/
structure Token.LiesAt (t : Token) (c : Cursor) : Prop where
  start_eq : t.start = c
  before : c.Before t.stop
  lt : c.rest ≠ [] → c.offset < t.stop.offset

theorem scanString_liesAt (flags : TokenFlags) {c : Cursor} (quote : Char) {ch : Char}
    {cs : List Char} (h : c.rest = ch :: cs) : (scanString flags c quote).LiesAt c := by
  have hadv := Cursor.offset_advance_lt h
  have hread := readString_before quote 0 c.advance.offset "" c.advance.rest
  have hle : c.advance.offset ≤ _ := hread.offset_le
  have hbefore := (Cursor.Before.advance c).trans hread
  unfold scanString
  dsimp only
  split <;> exact ⟨rfl, hbefore, fun _ => Nat.lt_of_lt_of_le hadv hle⟩

theorem scanTemplate_liesAt (isFirst : Bool) (flags : TokenFlags) {c : Cursor} {ch : Char}
    {cs : List Char} (h : c.rest = ch :: cs) :
    (scanTemplate isFirst flags c c.advance).LiesAt c := by
  have hadv := Cursor.offset_advance_lt h
  have hread := readTemplate_before 0 c.advance.offset "" c.advance.rest
  have hle : c.advance.offset ≤ _ := hread.offset_le
  have hbefore := (Cursor.Before.advance c).trans hread
  unfold scanTemplate
  dsimp only
  split <;> exact ⟨rfl, hbefore, fun _ => Nat.lt_of_lt_of_le hadv hle⟩

theorem scanNumber_liesAt (flags : TokenFlags) {c : Cursor} {ch : Char} {cs : List Char}
    (h : c.rest = ch :: cs) (hch : isDigit ch = true ∨ ch = '.') :
    (scanNumber flags c).LiesAt c := by
  have hbefore := readNumeral_before flags c
  have hlt := @readNumeral_lt flags c ch cs h hch
  unfold scanNumber
  dsimp only
  split
  · exact ⟨rfl, hbefore, fun _ => hlt⟩
  split
  · have hadv := Cursor.Before.advance (readNumeral flags c).stop
    exact ⟨rfl, hbefore.trans hadv, fun _ => Nat.lt_of_lt_of_le hlt hadv.offset_le⟩
  split <;> exact ⟨rfl, hbefore, fun _ => hlt⟩

theorem scanPrivateName_liesAt (flags : TokenFlags) {c : Cursor} {ch : Char} {cs : List Char}
    (h : c.rest = ch :: cs) : (scanPrivateName flags c).LiesAt c := by
  have hadv := Cursor.offset_advance_lt h
  have hbefore := Cursor.Before.advance c
  have hskip := Cursor.Before.skipWhile isNamePart c.advance
  unfold scanPrivateName
  dsimp only
  split
  · exact ⟨rfl, hbefore.trans hskip, fun _ => Nat.lt_of_lt_of_le hadv hskip.offset_le⟩
  · exact ⟨rfl, hbefore, fun _ => hadv⟩

theorem isNamePart_of_isNameStart {c : Char} (h : isNameStart c = true) : isNamePart c = true := by
  simp only [isNameStart, isNamePart, Bool.or_eq_true, Bool.and_eq_true] at h ⊢
  grind

theorem scanWord_liesAt (flags : TokenFlags) {c : Cursor} {ch : Char} {cs : List Char}
    (h : c.rest = ch :: cs) (hch : isNameStart ch = true) : (scanWord flags c).LiesAt c :=
  ⟨rfl, .skipWhile _ c, fun _ => Cursor.offset_skipWhile_lt h (isNamePart_of_isNameStart hch)⟩

namespace Punctuator

variable {p : Punctuator} {ch : Char} {next₁ next₂ next₃ : Option Char} {cs : List Char} {n : Nat}

theorem text_ne_empty (p : Punctuator) : p.text.length ≠ 0 := by
  cases p <;> decide

theorem length_text_le (p : Punctuator) : p.text.length ≤ 4 := by
  cases p <;> decide

/-- A punctuator is written with a character and what is behind it. -/
def Told (p : Punctuator) (ch : Char) (next₁ next₂ next₃ : Option Char) : Prop :=
  p.text.toList.map some <+: [some ch, next₁, next₂, next₃]

theorem told_iff : p.Told ch cs[0]? cs[1]? cs[2]? ↔ p.text.toList <+: ch :: cs := by
  have hentries : ∀ i < 4, [some ch, cs[0]?, cs[1]?, cs[2]?][i]? = some (ch :: cs)[i]? := by
    intro i hi
    match i with
    | 0 | 1 | 2 | 3 => rfl
  have hlength : p.text.toList.length ≤ 4 := p.length_text_le
  rw [Told, List.prefix_iff_getElem?, List.prefix_iff_getElem?]
  constructor
  · intro h i hi
    have hi' := h i (by rwa [List.length_map])
    rw [hentries i (hi.trans_le hlength), List.getElem_map] at hi'
    exact Option.some.inj hi'
  · intro h i hi
    rw [List.length_map] at hi
    rw [hentries i (hi.trans_le hlength), List.getElem_map, h i hi]

/-- What is read is written with the characters it is told by, and takes as many as it is
written with. -/
theorem read?_eq_some (h : read? ch next₁ next₂ next₃ = some (p, n)) :
    n = p.text.length ∧ p.Told ch next₁ next₂ next₃ := by
  unfold read? at h
  repeat' split at h
  all_goals cases h
  all_goals exact ⟨rfl, _, rfl⟩

/-- The punctuator that is read is ahead, and its text is passed. -/
theorem ahead?_eq_some (h : ahead? cs = some (p, n)) :
    n = p.text.length ∧ p.text.toList <+: cs := by
  cases cs with
  | nil => cases h
  | cons ch cs => exact (read?_eq_some h).imp_right told_iff.1

end Punctuator

theorem scanPunctuator_liesAt (flags : TokenFlags) {c : Cursor} {ch : Char} {cs : List Char}
    (h : c.rest = ch :: cs) : (scanPunctuator flags c).LiesAt c := by
  have hadv := Cursor.offset_advance_lt h
  unfold scanPunctuator
  split
  · case _ p length hp =>
    rw [(Punctuator.ahead?_eq_some hp).1]
    obtain ⟨n, hn⟩ := Nat.exists_eq_succ_of_ne_zero p.text_ne_empty
    refine ⟨rfl, .drop _ c, fun _ => ?_⟩
    have hle : c.advance.offset ≤ (c.drop p.text.length).offset := by
      rw [hn]
      exact (Cursor.Before.drop n c.advance).offset_le
    exact Nat.lt_of_lt_of_le hadv hle
  · exact ⟨rfl, .advance c, fun _ => hadv⟩

theorem scanAt_liesAt (flags : TokenFlags) (c : Cursor) : (scanAt flags c).LiesAt c := by
  unfold scanAt
  split
  · case _ hrest => exact ⟨rfl, .refl c, fun h => absurd hrest h⟩
  case _ ch cs hrest =>
  split
  · exact scanString_liesAt flags ch hrest
  split
  · exact scanTemplate_liesAt true flags hrest
  split
  · case _ hnumber =>
    refine scanNumber_liesAt flags hrest ?_
    rw [Bool.or_eq_true, Bool.and_eq_true, decide_eq_true_eq] at hnumber
    exact hnumber.imp_right And.left
  split
  · exact scanPrivateName_liesAt flags hrest
  split
  · exact scanWord_liesAt flags hrest (by assumption)
  · exact scanPunctuator_liesAt flags hrest

/-- An interpreter line that is not at the beginning is a fault. -/
theorem scanAt_interpreterLine {flags : TokenFlags} {c : Cursor} {cs : List Char}
    (h : c.rest = '#' :: '!' :: cs) : (scanAt flags c).kind = .unknown := by
  have hname : isNameStart '!' = false := by decide
  have hdigit : isDigit '#' = false := by decide
  simp [scanAt, h, hdigit, scanPrivateName, Cursor.advance, Cursor.peek?, hname]

-- ---------------------------------------------------------------------------
-- The next token
-- ---------------------------------------------------------------------------

/-- The kinds of tokens that are neither the end of the text nor a fault. -/
def TokenKind.isSignificant : TokenKind → Bool
  | .unknown | .endOfFile => false
  | _ => true

namespace Token

/-- The token that follows a cursor. -/
def after (c : Cursor) : Token := next ⟨.unknown, c, c, "", {}, none⟩

/-- Only where a token stops matters for the next one. -/
theorem next_eq (t : Token) : t.next = after t.stop := rfl

/-- What is passed before the token that follows a cursor. -/
def gap (c : Cursor) : Trivia :=
  skipTrivia .outside false (skipInterpreterLine c).offset (skipInterpreterLine c).rest

theorem after_of_unclosed {c opening : Cursor} (h : (gap c).unclosed = some opening) :
    after c = ⟨.unknown, opening, (gap c).stop, "",
      { lineBreak := (gap c).lineBreak, unterminated := true }, some .unclosedComment⟩ := by
  unfold gap at *
  simp only [after, next, h]

theorem after_of_closed {c : Cursor} (h : (gap c).unclosed = none) :
    after c = scanAt { lineBreak := (gap c).lineBreak } (gap c).stop := by
  unfold gap at *
  simp only [after, next, h]

theorem before_gap_stop (c : Cursor) : c.Before (gap c).stop :=
  (skipInterpreterLine_before c).trans (skipTrivia_before .outside false _ _)

theorem gap_unclosed {c opening : Cursor} (h : (gap c).unclosed = some opening) :
    c.Before opening ∧ opening.Before (gap c).stop := by
  have hline := skipInterpreterLine_before c
  refine @skipTrivia_unclosed c .outside false _ _ hline ?_ opening h
  intro o ho
  exact nomatch ho

theorem before_after_start (c : Cursor) : c.Before (after c).start := by
  cases h : (gap c).unclosed with
  | some opening =>
    rw [after_of_unclosed h]
    exact (gap_unclosed h).1
  | none =>
    rw [after_of_closed h, (scanAt_liesAt _ _).start_eq]
    exact before_gap_stop c

theorem after_start_before (c : Cursor) : (after c).start.Before (after c).stop := by
  cases h : (gap c).unclosed with
  | some opening =>
    rw [after_of_unclosed h]
    exact (gap_unclosed h).2
  | none =>
    rw [after_of_closed h, (scanAt_liesAt _ _).start_eq]
    exact (scanAt_liesAt _ _).before

/-- A token that is neither the end of the text nor a fault. -/
structure Significant (t : Token) : Prop where
  known : t.kind ≠ .unknown
  more : t.kind ≠ .endOfFile

theorem Significant.of_kind_eq {t : Token} {k : TokenKind} (ht : t.kind = k)
    (hk : k.isSignificant = true) : t.Significant := by
  subst ht
  constructor
  · intro h
    rw [h] at hk
    cases hk
  · intro h
    rw [h] at hk
    cases hk

theorem Significant.of_kind {t : Token} (p : TokenKind → Bool) (ht : p t.kind = true)
    (hunknown : p .unknown = false) (hend : p .endOfFile = false) : t.Significant := by
  constructor
  · intro hk
    rw [hk, hunknown] at ht
    cases ht
  · intro hk
    rw [hk, hend] at ht
    cases ht

theorem Significant.of_isBindingName {t : Token} (ht : t.isBindingName = true) :
    t.Significant := by
  constructor
  · intro hk
    simp [isBindingName, hk, TokenKind.isContextual] at ht
  · intro hk
    simp [isBindingName, hk, TokenKind.isContextual] at ht

/-- A significant token begins where the trivia before it stop. -/
theorem after_significant {c : Cursor} (h : (after c).Significant) :
    (gap c).stop.rest ≠ [] ∧ ∃ flags, after c = scanAt flags (gap c).stop := by
  cases hgap : (gap c).unclosed with
  | some opening => exact absurd (after_of_unclosed hgap ▸ rfl) h.known
  | none =>
    have heq := after_of_closed hgap
    refine ⟨fun hrest => h.more ?_, _, heq⟩
    simp [heq, scanAt, hrest]

theorem after_lt {c : Cursor} (h : (after c).Significant) :
    (after c).start.offset < (after c).stop.offset := by
  obtain ⟨hrest, flags, heq⟩ := after_significant h
  rw [heq, (scanAt_liesAt flags _).start_eq]
  exact (scanAt_liesAt flags _).lt hrest

/-- A significant token begins as one. -/
theorem after_begins {c : Cursor} (h : (after c).Significant) : Begins (after c).start.rest := by
  obtain ⟨hrest, flags, heq⟩ := after_significant h
  rw [heq, (scanAt_liesAt flags _).start_eq]
  obtain ⟨ch, cs, hcs⟩ := List.exists_cons_of_ne_nil hrest
  have hstop := skipTrivia_stop .outside false _ hcs
  rw [hcs]
  refine ⟨hstop.1, hstop.2.1, hstop.2.2, ?_⟩
  rintro rfl hbang
  obtain ⟨cs, rfl⟩ : ∃ cs', cs = '!' :: cs' := by
    cases cs <;> simp_all
  exact h.known (heq ▸ scanAt_interpreterLine hcs)

/-- Where a token begins, it is the next one. -/
theorem start_after_of_begins {c : Cursor} (h : Begins c.rest) : (after c).start = c := by
  have hgap : gap c = ⟨false, c, none⟩ := by
    unfold gap
    rw [skipInterpreterLine_of_begins h, skipTrivia_of_begins h]
  rw [after_of_closed (by rw [hgap]), (scanAt_liesAt _ _).start_eq, hgap]

theorem gap_newline (offset : Nat) (cs : List Char) :
    gap ⟨offset, '\n' :: cs⟩ = skipTrivia .outside true (offset + 1) cs := by
  have hline : skipInterpreterLine ⟨offset, '\n' :: cs⟩ = ⟨offset, '\n' :: cs⟩ := by
    simp [skipInterpreterLine]
  rw [gap, hline, skipTrivia_newline]

/-- Where a token begins on the next line, it is the next one. -/
theorem start_after_line {offset : Nat} {cs : List Char} (h : Begins cs) :
    (after ⟨offset, '\n' :: cs⟩).start = ⟨offset + 1, cs⟩ := by
  have hgap : gap ⟨offset, '\n' :: cs⟩ = ⟨true, ⟨offset + 1, cs⟩, none⟩ := by
    rw [gap_newline, skipTrivia_of_begins h]
  rw [after_of_closed (by rw [hgap]), (scanAt_liesAt _ _).start_eq, hgap]

/-- Before the end of a text, and before the line feed at its end, nothing but
the end of the text follows. -/
theorem after_end (offset : Nat) : (after ⟨offset, []⟩).kind = .endOfFile := by
  have hgap : gap ⟨offset, []⟩ = ⟨false, ⟨offset, []⟩, none⟩ := by
    simp [gap, skipInterpreterLine, skipTrivia, TriviaRegion.unclosed]
  rw [after_of_closed (by rw [hgap]), hgap]
  rfl

theorem after_last_line (offset : Nat) : (after ⟨offset, ['\n']⟩).kind = .endOfFile := by
  have hgap : gap ⟨offset, ['\n']⟩ = ⟨true, ⟨offset + 1, []⟩, none⟩ := by
    rw [gap_newline]
    rfl
  rw [after_of_closed (by rw [hgap]), hgap]
  rfl

-- ---------------------------------------------------------------------------
-- Reading again
-- ---------------------------------------------------------------------------

/-- How far the body of a regular expression is read, closed or not. -/
def regexStop : Except Cursor Cursor → Cursor
  | .ok stop | .error stop => stop

theorem regexBody_before (inClass escaped : Bool) (offset : Nat) (cs : List Char) :
    Cursor.Before ⟨offset, cs⟩ (regexStop (regexBody inClass escaped offset cs)) := by
  induction cs generalizing inClass escaped offset with
  | nil => exact .refl _
  | cons c cs ih =>
    have hstep := Cursor.Before.of_cons offset c cs
    unfold regexBody
    dsimp only
    split
    · exact .refl _
    split
    · exact hstep.trans (ih ..)
    split
    · exact hstep.trans (ih ..)
    · exact hstep.trans (ih ..)
    · exact hstep.trans (ih ..)
    · split
      · exact hstep.trans (ih ..)
      · exact hstep
    · exact hstep.trans (ih ..)

theorem asRegex_start (t : Token) : t.asRegex.start = t.start := by
  unfold asRegex
  split
  · dsimp only
    split <;> rfl
  · rfl

/-- A token that is read again as a regular expression stops on the same text.
If it was a slash, which is not empty, the expression is not empty either. -/
theorem asRegex_before {t : Token} (h : t.start.Before t.stop) :
    t.start.Before t.asRegex.stop ∧
      (t.start.offset < t.stop.offset → t.start.offset < t.asRegex.stop.offset) := by
  unfold asRegex
  split
  · have hadv := Cursor.Before.advance t.start
    have hbody := regexBody_before false false t.start.advance.offset t.start.advance.rest
    have hlt : t.start.offset < t.stop.offset → t.start.offset < t.start.advance.offset := by
      intro hlt
      obtain ⟨ch, cs, hcs⟩ := List.exists_cons_of_ne_nil (h.rest_ne_nil hlt)
      exact Cursor.offset_advance_lt hcs
    dsimp only
    split
    · case _ slash hslash =>
      rw [hslash] at hbody
      have hstop := hbody.trans (Cursor.Before.skipWhile isNamePart slash)
      exact ⟨hadv.trans hstop, fun h => Nat.lt_of_lt_of_le (hlt h) hstop.offset_le⟩
    · case _ stop hstop =>
      rw [hstop] at hbody
      exact ⟨hadv.trans hbody, fun h => Nat.lt_of_lt_of_le (hlt h) hbody.offset_le⟩
  · exact ⟨h, id⟩

theorem asTemplate_start (t : Token) : t.asTemplate.start = t.start := by
  unfold asTemplate
  split
  · unfold scanTemplate
    dsimp only
    split <;> rfl
  · rfl

/-- Likewise for a brace that is read again as a piece of a template. -/
theorem asTemplate_before {t : Token} (h : t.start.Before t.stop) :
    t.start.Before t.asTemplate.stop ∧
      (t.start.offset < t.stop.offset → t.start.offset < t.asTemplate.stop.offset) := by
  unfold asTemplate
  split
  · by_cases hlt : t.start.offset < t.stop.offset
    · obtain ⟨ch, cs, hcs⟩ := List.exists_cons_of_ne_nil (h.rest_ne_nil hlt)
      have hlies := scanTemplate_liesAt false t.flags hcs
      exact ⟨hlies.before, fun _ => hlies.lt (h.rest_ne_nil hlt)⟩
    · have hread := readTemplate_before 0 t.start.advance.offset "" t.start.advance.rest
      have hbefore := (Cursor.Before.advance t.start).trans hread
      refine ⟨?_, fun h => absurd h hlt⟩
      unfold scanTemplate
      dsimp only
      split <;> exact hbefore
  · exact ⟨h, id⟩

/-- Reading a token again mends no fault and does not go on at the end of a text. -/
theorem Significant.of_asRegex {t : Token} (h : t.asRegex.Significant) : t.Significant := by
  unfold asRegex at h
  split at h
  · case isTrue hk =>
    rw [Bool.or_eq_true, decide_eq_true_eq, decide_eq_true_eq] at hk
    rcases hk with hk | hk
    · exact ⟨by simp [hk], by simp [hk]⟩
    · exact ⟨by simp [hk], by simp [hk]⟩
  · exact h

theorem Significant.of_asTemplate {t : Token} (h : t.asTemplate.Significant) :
    t.Significant := by
  unfold asTemplate at h
  split at h
  · case isTrue hk => exact ⟨by simp [hk], by simp [hk]⟩
  · exact h

-- ---------------------------------------------------------------------------
-- Runs of tokens
-- ---------------------------------------------------------------------------

/-- The token that follows a cursor, as it is or read again. -/
inductive ReadBehind (c : Cursor) : Token → Prop
  | next : ReadBehind c (after c)
  | regex : ReadBehind c (after c).asRegex
  | template : ReadBehind c (after c).asTemplate

section

variable {c d e : Cursor} {t : Token} {ts us : List Token}

theorem ReadBehind.start_eq (h : t.ReadBehind c) : t.start = (after c).start := by
  cases h with
  | next => rfl
  | regex => exact asRegex_start _
  | template => exact asTemplate_start _

theorem ReadBehind.start_before_stop (h : t.ReadBehind c) : t.start.Before t.stop := by
  have hbefore := after_start_before c
  cases h with
  | next => exact hbefore
  | regex =>
    rw [asRegex_start]
    exact (asRegex_before hbefore).1
  | template =>
    rw [asTemplate_start]
    exact (asTemplate_before hbefore).1

theorem ReadBehind.before_start (h : t.ReadBehind c) : c.Before t.start := by
  rw [h.start_eq]
  exact before_after_start c

theorem ReadBehind.lt (h : t.ReadBehind c) (hs : t.Significant) :
    t.start.offset < t.stop.offset := by
  have hbefore := after_start_before c
  cases h with
  | next => exact after_lt hs
  | regex =>
    rw [asRegex_start]
    exact (asRegex_before hbefore).2 (after_lt hs.of_asRegex)
  | template =>
    rw [asTemplate_start]
    exact (asTemplate_before hbefore).2 (after_lt hs.of_asTemplate)

end

end Token

/-- Significant tokens that are read one after the other, from a cursor to another one. -/
inductive Reads : Cursor → List Token → Cursor → Prop
  | nil (c : Cursor) : Reads c [] c
  | cons {c d : Cursor} {t : Token} {ts : List Token} (token : t.ReadBehind c)
    (significant : t.Significant) (rest : Reads t.stop ts d) : Reads c (t :: ts) d

namespace Reads

variable {c d e : Cursor} {t : Token} {ts us : List Token}

theorem single (token : t.ReadBehind c) (significant : t.Significant) : Reads c [t] t.stop :=
  .cons token significant (.nil _)

theorem append (h : Reads c ts d) (h' : Reads d us e) : Reads c (ts ++ us) e := by
  induction h with
  | nil => exact h'
  | cons token significant _ ih => exact .cons token significant (ih h')

theorem before (h : Reads c ts d) : c.Before d := by
  induction h with
  | nil c => exact .refl c
  | cons token _ _ ih => exact (token.before_start.trans token.start_before_stop).trans ih

/-- If there are tokens, the one that follows the cursor is significant. -/
theorem significant (h : Reads c ts d) (hne : ts ≠ []) : (Token.after c).Significant := by
  cases h with
  | nil => exact absurd rfl hne
  | cons token significant _ =>
    cases token with
    | next => exact significant
    | regex => exact significant.of_asRegex
    | template => exact significant.of_asTemplate

/-- If there are tokens, they pass the beginning of the first one. -/
theorem lt (h : Reads c ts d) (hne : ts ≠ []) :
    (Token.after c).start.offset < d.offset := by
  cases h with
  | nil => exact absurd rfl hne
  | cons token significant rest =>
    rw [← token.start_eq]
    exact Nat.lt_of_lt_of_le (token.lt significant) rest.before.offset_le

end Reads

end ModuleBundler
