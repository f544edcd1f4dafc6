import ModuleBundler.Proofs.Characters

/-!
# ModuleBundler — what is passed between tokens

On the way to a token the tokenizer passes white space, line terminators, comments
that are complete, and at the beginning of a text an interpreter line. It passes
nothing else, and a line terminator is noted exactly if one was passed.

* `Spacing` — what may be passed, told without the tokenizer.
* `Between` — what stands between two offsets of a text.
* `OnlySpacing` — nothing but spacing stands between two offsets.
* `skipTrivia_passes` — nothing but spacing is passed before a token.
* `Token.onlySpacing_after` — before the token that follows a cursor there is only
  spacing.
* `Token.afterLineBreak_iff` — a token notes exactly whether a line terminator is
  before it.
-/

namespace ModuleBundler

open Text
open String (utf8Len)

-- ---------------------------------------------------------------------------
-- Spacing
-- ---------------------------------------------------------------------------

/-- A line ends here: before a line terminator, or where the text ends. -/
def EndsLine (cs : List Char) : Prop := ∀ c ∈ cs.head?, c ∈ lineTerminators

/-- White space, line terminators and complete comments, with some characters ahead.
A comment of one line reaches to the end of its line, and one in a block to its first
closing sign. -/
inductive Spacing (ahead : List Char) : List Char → Prop
  | nil : Spacing ahead []
  | blank {c : Char} {cs : List Char} (hc : c ∈ blanks ∨ c ∈ lineTerminators)
    (rest : Spacing ahead cs) : Spacing ahead (c :: cs)
  | lineComment {body cs : List Char} (hbody : ∀ c ∈ body, c ∉ lineTerminators)
    (hend : EndsLine (cs ++ ahead)) (rest : Spacing ahead cs) :
    Spacing ahead ('/' :: '/' :: (body ++ cs))
  | blockComment {body cs : List Char} (hbody : ¬['*', '/'] <:+: body)
    (rest : Spacing ahead cs) : Spacing ahead ('/' :: '*' :: (body ++ '*' :: '/' :: cs))

/-- An interpreter line, which reaches to the end of its line, and spacing after it. -/
def InterpreterSpacing (ahead cs : List Char) : Prop :=
  ∃ line rest, cs = '#' :: '!' :: (line ++ rest) ∧ (∀ c ∈ line, c ∉ lineTerminators) ∧
    EndsLine (rest ++ ahead) ∧ Spacing ahead rest

/-- Spacing from an offset on. At the beginning of a text it may begin with an
interpreter line. -/
def SpacingFrom (offset : Nat) (ahead cs : List Char) : Prop :=
  Spacing ahead cs ∨ offset = 0 ∧ InterpreterSpacing ahead cs

/-- Between two offsets of a text, both of them ends of characters, stand these
characters, and those come after them. -/
def Between (text : String) (start stop : Nat) (cs ahead : List Char) : Prop :=
  ∃ before, text.toList = before ++ (cs ++ ahead) ∧ utf8Len before = start ∧
    stop = start + utf8Len cs

/-- Between two offsets of a text stands nothing but spacing. -/
def OnlySpacing (text : String) (start stop : Nat) : Prop :=
  ∃ cs ahead, Between text start stop cs ahead ∧ SpacingFrom start ahead cs

/-- Between two offsets of a text stands a line terminator. -/
def HasLineBreak (text : String) (start stop : Nat) : Prop :=
  ∃ cs ahead, Between text start stop cs ahead ∧ ∃ c ∈ cs, c ∈ lineTerminators

-- ---------------------------------------------------------------------------
-- Lines
-- ---------------------------------------------------------------------------

theorem any_isLineBreak_iff {cs : List Char} :
    cs.any isLineBreak = true ↔ ∃ c ∈ cs, c ∈ lineTerminators := by
  simp only [List.any_eq_true, isLineBreak_iff]

theorem any_isLineBreak_eq_false {cs : List Char} (h : ∀ c ∈ cs, c ∉ lineTerminators) :
    cs.any isLineBreak = false := by
  rw [Bool.eq_false_iff, Ne, any_isLineBreak_iff]
  rintro ⟨c, hc, hbreak⟩
  exact h c hc hbreak

/-- The rest of a line has no line terminator. -/
theorem notMem_of_mem_takeWhile {cs : List Char} {c : Char}
    (h : c ∈ cs.takeWhile (!isLineBreak ·)) : c ∉ lineTerminators := by
  rw [← isLineBreak_eq_false_iff, ← Bool.not_eq_true']
  exact List.all_eq_true.1 List.all_takeWhile c h

/-- Behind the rest of a line the line ends. -/
theorem endsLine_dropWhile (cs : List Char) : EndsLine (cs.dropWhile (!isLineBreak ·)) := by
  intro c hc
  have hnot := List.head?_dropWhile_not (!isLineBreak ·) cs
  rw [Option.mem_def.1 hc] at hnot
  exact isLineBreak_iff.1 (by simpa using hnot)

section Between

variable {text : String} {start stop : Nat} {cs cs' ahead ahead' : List Char}

/-- Two offsets of a text determine what stands between them. -/
theorem Between.unique (h : Between text start stop cs ahead)
    (h' : Between text start stop cs' ahead') : cs = cs' ∧ ahead = ahead' := by
  obtain ⟨before, htext, hstart, hstop⟩ := h
  obtain ⟨before', htext', hstart', hstop'⟩ := h'
  have hc : (Cursor.start text).Before ⟨start, cs ++ ahead⟩ :=
    .of_passed htext (by simp [Cursor.start, hstart])
  have hc' : (Cursor.start text).Before ⟨start, cs' ++ ahead'⟩ :=
    .of_passed htext' (by simp [Cursor.start, hstart'])
  have hd : (Cursor.start text).Before ⟨stop, ahead⟩ := hc.trans (.of_passed rfl hstop)
  have hd' : (Cursor.start text).Before ⟨stop, ahead'⟩ := hc'.trans (.of_passed rfl hstop')
  have hrest : cs ++ ahead = cs' ++ ahead' :=
    congrArg Cursor.rest (Cursor.Before.eq_of_offset hc hc' rfl)
  have hahead : ahead = ahead' := congrArg Cursor.rest (Cursor.Before.eq_of_offset hd hd' rfl)
  subst hahead
  exact ⟨List.append_cancel_right hrest, rfl⟩

/-- What a cursor passes on its way to another one stands between them. -/
theorem between_of_passed {c d : Cursor} (hc : (Cursor.start text).Before c)
    (hm : c.rest = cs ++ d.rest) (ho : d.offset = c.offset + utf8Len cs) :
    Between text c.offset d.offset cs d.rest := by
  obtain ⟨before, hbefore, hoff⟩ := hc.exists_passed
  refine ⟨before, ?_, ?_, ho⟩
  · rw [← hm]
    exact hbefore
  · rw [hoff]
    exact (Nat.zero_add _).symm

end Between

-- ---------------------------------------------------------------------------
-- Comments
-- ---------------------------------------------------------------------------

/-- Within a comment of one line everything is passed up to the end of the line. -/
theorem skipTrivia_inLine (lineBreak : Bool) (offset : Nat) (cs : List Char) :
    ∃ body rest, cs = body ++ rest ∧ (∀ c ∈ body, c ∉ lineTerminators) ∧ EndsLine rest ∧
      skipTrivia .lineComment lineBreak offset cs =
        skipTrivia .outside lineBreak (offset + utf8Len body) rest := by
  induction cs generalizing offset with
  | nil => exact ⟨[], [], rfl, nofun, nofun, rfl⟩
  | cons c cs ih =>
    by_cases hc : isLineBreak c = true
    · have hslash : c ≠ '/' := by
        rintro rfl
        exact absurd hc (by decide)
      refine ⟨[], c :: cs, rfl, nofun, ?_, ?_⟩
      · intro d hd
        cases hd
        exact isLineBreak_iff.1 hc
      · simp [skipTrivia, hc, hslash]
    · obtain ⟨body, rest, rfl, hbody, hend, heq⟩ := ih (offset + c.utf8Size)
      refine ⟨c :: body, rest, rfl, ?_, hend, ?_⟩
      · intro d hd
        rcases List.mem_cons.1 hd with rfl | hd
        · exact mt isLineBreak_iff.2 hc
        · exact hbody d hd
      · rw [skipTrivia, if_neg hc, heq, String.utf8Len_cons]
        congr 1
        omega

/-- A comment of one line is passed whole. -/
theorem skipTrivia_lineComment (lineBreak : Bool) (offset : Nat) (cs : List Char) :
    ∃ body rest, cs = body ++ rest ∧ (∀ c ∈ body, c ∉ lineTerminators) ∧ EndsLine rest ∧
      skipTrivia .outside lineBreak offset ('/' :: '/' :: cs) =
        skipTrivia .outside lineBreak (offset + utf8Len ('/' :: '/' :: body)) rest := by
  have hstep : skipTrivia .outside lineBreak offset ('/' :: '/' :: cs) =
      skipTrivia .lineComment lineBreak (offset + Char.utf8Size '/' + Char.utf8Size '/') cs := by
    have hslash : isLineBreak '/' = false := by decide
    simp [skipTrivia, hslash]
  obtain ⟨body, rest, hcs, hbody, hend, heq⟩ :=
    skipTrivia_inLine lineBreak (offset + Char.utf8Size '/' + Char.utf8Size '/') cs
  refine ⟨body, rest, hcs, hbody, hend, ?_⟩
  rw [hstep, heq, String.utf8Len_cons, String.utf8Len_cons]
  congr 1
  omega

/-- Within a comment in a block everything is passed up to its first closing sign, if
it has one. -/
theorem skipTrivia_inBlock (opening : Cursor) (lineBreak : Bool) (offset : Nat)
    (cs : List Char) :
    (skipTrivia (.blockComment opening) lineBreak offset cs).unclosed = some opening ∨
      ∃ body rest, cs = body ++ '*' :: '/' :: rest ∧ ¬['*', '/'] <:+: body ∧
        skipTrivia (.blockComment opening) lineBreak offset cs =
          skipTrivia .outside (lineBreak || body.any isLineBreak) (offset + utf8Len body + 2)
            rest := by
  induction cs generalizing lineBreak offset with
  | nil => exact .inl rfl
  | cons c cs ih =>
    by_cases hc : c = '*' ∧ cs.head? = some '/'
    · obtain ⟨rfl, hslash⟩ := hc
      obtain ⟨rest, rfl⟩ : ∃ rest, cs = '/' :: rest := by
        cases cs <;> simp_all
      refine .inr ⟨[], rest, rfl, by simp, ?_⟩
      simp [skipTrivia, Char.utf8Size]
    · have hstep : skipTrivia (.blockComment opening) lineBreak offset (c :: cs) =
          skipTrivia (.blockComment opening) (lineBreak || isLineBreak c) (offset + c.utf8Size)
            cs := by
        simp [skipTrivia, hc]
      rw [hstep]
      refine (ih _ _).imp_right ?_
      rintro ⟨body, rest, rfl, hbody, heq⟩
      refine ⟨c :: body, rest, rfl, ?_, ?_⟩
      · rw [List.infix_cons_iff]
        rintro (⟨more, hmore⟩ | hinfix)
        · obtain ⟨rfl, rfl⟩ := List.cons.inj hmore
          exact hc ⟨rfl, rfl⟩
        · exact hbody hinfix
      · rw [heq, String.utf8Len_cons, List.any_cons, Bool.or_assoc]
        congr 1
        omega

/-- A comment in a block is passed whole, unless the text ends in it. -/
theorem skipTrivia_blockComment (lineBreak : Bool) (offset : Nat) (cs : List Char) :
    (skipTrivia .outside lineBreak offset ('/' :: '*' :: cs)).unclosed =
        some ⟨offset, '/' :: '*' :: cs⟩ ∨
      ∃ body rest, cs = body ++ '*' :: '/' :: rest ∧ ¬['*', '/'] <:+: body ∧
        skipTrivia .outside lineBreak offset ('/' :: '*' :: cs) =
          skipTrivia .outside (lineBreak || body.any isLineBreak)
            (offset + utf8Len ('/' :: '*' :: (body ++ ['*', '/']))) rest := by
  have hstep : skipTrivia .outside lineBreak offset ('/' :: '*' :: cs) =
      skipTrivia (.blockComment ⟨offset, '/' :: '*' :: cs⟩) lineBreak (offset + 2) cs := by
    simp [skipTrivia, Char.utf8Size]
  rw [hstep]
  refine (skipTrivia_inBlock _ lineBreak (offset + 2) cs).imp_right ?_
  rintro ⟨body, rest, hcs, hbody, heq⟩
  refine ⟨body, rest, hcs, hbody, ?_⟩
  have hsigns : utf8Len ('/' :: '*' :: (body ++ ['*', '/'])) = utf8Len body + 4 := by
    simp [String.utf8Len_cons, String.utf8Len_append, Char.utf8Size]
  rw [heq, hsigns]
  congr 1
  omega

-- ---------------------------------------------------------------------------
-- All that is passed
-- ---------------------------------------------------------------------------

/-- Where the token begins that trivia lead to. -/
def Trivia.tokenStart (t : Trivia) : Cursor := t.unclosed.getD t.stop

/-- What is passed on the way from a cursor to a token is spacing. -/
structure Trivia.Passes (t : Trivia) (lineBreak : Bool) (c : Cursor) (passed : List Char) :
    Prop where
  rest_eq : c.rest = passed ++ t.tokenStart.rest
  offset_eq : t.tokenStart.offset = c.offset + utf8Len passed
  spacing : Spacing t.tokenStart.rest passed
  lineBreak_eq : t.unclosed = none → t.lineBreak = (lineBreak || passed.any isLineBreak)

/-- What is passed first, and what is passed after it. -/
theorem Trivia.Passes.prepend {t : Trivia} {lineBreak lineBreak' : Bool} {offset : Nat}
    {front cs passed : List Char}
    (h : t.Passes lineBreak' ⟨offset + utf8Len front, cs⟩ passed)
    (hspacing : Spacing t.tokenStart.rest passed → Spacing t.tokenStart.rest (front ++ passed))
    (hline : lineBreak' = (lineBreak || front.any isLineBreak)) :
    t.Passes lineBreak ⟨offset, front ++ cs⟩ (front ++ passed) := by
  have hrest : cs = passed ++ t.tokenStart.rest := h.rest_eq
  have hoffset : t.tokenStart.offset = offset + utf8Len front + utf8Len passed := h.offset_eq
  refine ⟨?_, ?_, hspacing h.spacing, fun hclosed => ?_⟩
  · show front ++ cs = front ++ passed ++ t.tokenStart.rest
    rw [hrest, List.append_assoc]
  · show t.tokenStart.offset = offset + utf8Len (front ++ passed)
    rw [hoffset, String.utf8Len_append]
    omega
  · rw [h.lineBreak_eq hclosed, hline, List.any_append, Bool.or_assoc]

/-- Nothing is passed before a token. -/
theorem Trivia.Passes.here {t : Trivia} {lineBreak : Bool} {c : Cursor} (ht : t.tokenStart = c)
    (hline : t.unclosed = none → t.lineBreak = lineBreak) : t.Passes lineBreak c [] := by
  refine ⟨?_, ?_, .nil, fun hclosed => ?_⟩
  · rw [ht]
    rfl
  · rw [ht]
    rfl
  · rw [hline hclosed]
    simp

/-- One blank character or line terminator is passed, and what comes after it. -/
theorem Trivia.Passes.cons {t : Trivia} {lineBreak : Bool} {offset : Nat} {c : Char}
    {cs passed : List Char} (hc : isBlank c = true ∨ isLineBreak c = true)
    (h : t.Passes (lineBreak || isLineBreak c) ⟨offset + c.utf8Size, cs⟩ passed) :
    t.Passes lineBreak ⟨offset, c :: cs⟩ (c :: passed) := by
  have hlen : utf8Len [c] = c.utf8Size := by simp [String.utf8Len_cons]
  have hfront : t.Passes (lineBreak || [c].any isLineBreak) ⟨offset + utf8Len [c], cs⟩ passed := by
    simpa [hlen] using h
  exact hfront.prepend (.blank (hc.imp isBlank_iff.1 isLineBreak_iff.1)) rfl

/-- Outside comments nothing but spacing is passed. The comments are passed whole, so
the induction is on the length of what is ahead. -/
theorem skipTrivia_passes (lineBreak : Bool) (offset : Nat) (cs : List Char) :
    ∃ passed, (skipTrivia .outside lineBreak offset cs).Passes lineBreak ⟨offset, cs⟩ passed := by
  induction hn : cs.length using Nat.strong_induction_on generalizing lineBreak offset cs with
  | _ n ih =>
    match cs, hn with
    | [], _ => exact ⟨[], .here rfl fun _ => rfl⟩
    | c :: cs, hn =>
      rw [List.length_cons] at hn
      by_cases hline : c = '/' ∧ cs.head? = some '/'
      · obtain ⟨rfl, hslash⟩ := hline
        obtain ⟨cs, rfl⟩ := List.head?_eq_some_iff.1 hslash
        obtain ⟨body, rest, rfl, hbody, hend, heq⟩ :=
          skipTrivia_lineComment lineBreak offset cs
        rw [List.length_cons, List.length_append] at hn
        rw [heq]
        obtain ⟨passed, hpassed⟩ := ih rest.length (by omega) lineBreak _ rest rfl
        refine ⟨'/' :: '/' :: body ++ passed, hpassed.prepend (fun hspacing => ?_) ?_⟩
        · exact .lineComment hbody (hpassed.rest_eq ▸ hend) hspacing
        · have hslash : isLineBreak '/' = false := by decide
          have hnone : ('/' :: '/' :: body).any isLineBreak = false := by
            rw [List.any_cons, List.any_cons, any_isLineBreak_eq_false hbody, hslash]
            rfl
          rw [hnone, Bool.or_false]
      by_cases hblock : c = '/' ∧ cs.head? = some '*'
      · obtain ⟨rfl, hstar⟩ := hblock
        obtain ⟨cs, rfl⟩ := List.head?_eq_some_iff.1 hstar
        rcases skipTrivia_blockComment lineBreak offset cs with
          hunclosed | ⟨body, rest, rfl, hbody, heq⟩
        · refine ⟨[], .here ?_ fun hclosed => ?_⟩
          · rw [Trivia.tokenStart, hunclosed, Option.getD_some]
          · rw [hunclosed] at hclosed
            exact nomatch hclosed
        · rw [List.length_cons, List.length_append, List.length_cons, List.length_cons] at hn
          rw [heq]
          obtain ⟨passed, hpassed⟩ := ih rest.length (by omega) _ _ rest rfl
          have hsplit : ∀ more, '/' :: '*' :: (body ++ '*' :: '/' :: more) =
              '/' :: '*' :: (body ++ ['*', '/']) ++ more := by
            intro more
            simp
          rw [hsplit rest]
          refine ⟨_, hpassed.prepend (fun hspacing => ?_) ?_⟩
          · rw [← hsplit]
            exact .blockComment hbody hspacing
          · have hsigns : isLineBreak '/' = false ∧ isLineBreak '*' = false := by decide
            simp [List.any_append, hsigns]
      by_cases hbreak : isLineBreak c = true
      · have hstep : skipTrivia .outside lineBreak offset (c :: cs) =
            skipTrivia .outside (lineBreak || isLineBreak c) (offset + c.utf8Size) cs := by
          simp [skipTrivia, hline, hblock, hbreak]
        rw [hstep]
        obtain ⟨passed, hpassed⟩ := ih cs.length (by omega) _ _ cs rfl
        exact ⟨c :: passed, hpassed.cons (.inr hbreak)⟩
      by_cases hblank : isBlank c = true
      · have hstep : skipTrivia .outside lineBreak offset (c :: cs) =
            skipTrivia .outside (lineBreak || isLineBreak c) (offset + c.utf8Size) cs := by
          simp [skipTrivia, hline, hblock, hbreak, hblank]
        rw [hstep]
        obtain ⟨passed, hpassed⟩ := ih cs.length (by omega) _ _ cs rfl
        exact ⟨c :: passed, hpassed.cons (.inl hblank)⟩
      · have hstep : skipTrivia .outside lineBreak offset (c :: cs) =
            ⟨lineBreak, ⟨offset, c :: cs⟩, none⟩ := by
          simp [skipTrivia, hline, hblock, hbreak, hblank]
        rw [hstep]
        exact ⟨[], .here rfl fun _ => rfl⟩

-- ---------------------------------------------------------------------------
-- Before a token
-- ---------------------------------------------------------------------------

theorem skipWhile_go_eq (p : Char → Bool) (offset : Nat) (cs : List Char) :
    Cursor.skipWhile.go p offset cs =
      ⟨offset + utf8Len (cs.takeWhile p), cs.dropWhile p⟩ := by
  induction cs generalizing offset with
  | nil => rfl
  | cons c cs ih =>
    by_cases hc : p c = true
    · simp [Cursor.skipWhile.go, hc, ih, String.utf8Len_cons]
      omega
    · simp [Cursor.skipWhile.go, hc]

/-- An interpreter line is passed at the beginning of a text only, up to its end. -/
theorem skipInterpreterLine_passes (c : Cursor) :
    skipInterpreterLine c = c ∨ c.offset = 0 ∧ ∃ line,
      c.rest = '#' :: '!' :: line ++ (skipInterpreterLine c).rest ∧
      (skipInterpreterLine c).offset = c.offset + utf8Len ('#' :: '!' :: line) ∧
      (∀ d ∈ line, d ∉ lineTerminators) ∧ EndsLine (skipInterpreterLine c).rest := by
  unfold skipInterpreterLine
  split
  · case _ cs hoffset hrest =>
    have hsigns : isLineBreak '#' = false ∧ isLineBreak '!' = false := by decide
    have hline : c.skipWhile (!isLineBreak ·) =
        ⟨c.offset + utf8Len ('#' :: '!' :: cs.takeWhile (!isLineBreak ·)),
          cs.dropWhile (!isLineBreak ·)⟩ := by
      rw [Cursor.skipWhile, skipWhile_go_eq, hrest]
      simp [hsigns]
    refine .inr ⟨hoffset, cs.takeWhile (!isLineBreak ·), ?_, ?_, ?_, ?_⟩
    · rw [hline, hrest, List.cons_append, List.cons_append, List.takeWhile_append_dropWhile]
    · rw [hline]
    · exact fun d hd => notMem_of_mem_takeWhile hd
    · rw [hline]
      exact endsLine_dropWhile cs
  · exact .inl rfl

-- ---------------------------------------------------------------------------
-- Before a token
-- ---------------------------------------------------------------------------

theorem readExponent_lineBreak (n : Numeral) :
    (readExponent n).flags.lineBreak = n.flags.lineBreak := by
  unfold readExponent
  split <;> rfl

theorem readFraction_lineBreak (n : Numeral) :
    (readFraction n).flags.lineBreak = n.flags.lineBreak := by
  unfold readFraction
  split <;> rfl

theorem readNumeral_lineBreak (flags : TokenFlags) (c : Cursor) :
    (readNumeral flags c).flags.lineBreak = flags.lineBreak := by
  have hdecimal : (readDecimal flags c).flags.lineBreak = flags.lineBreak := by
    rw [readDecimal, readExponent_lineBreak, readFraction_lineBreak]
  unfold readNumeral
  split
  · split
    · rfl
    · exact hdecimal
  · exact hdecimal

/-- Whatever token begins at a position, what was noted before it stays noted. -/
theorem scanAt_lineBreak (flags : TokenFlags) (c : Cursor) :
    (scanAt flags c).flags.lineBreak = flags.lineBreak := by
  unfold scanAt
  split
  · rfl
  split
  · unfold scanString
    dsimp only
    split <;> rfl
  split
  · unfold scanTemplate
    dsimp only
    split <;> rfl
  split
  · unfold scanNumber
    dsimp only
    split
    · exact readNumeral_lineBreak flags c
    split
    · exact readNumeral_lineBreak flags c
    split <;> exact readNumeral_lineBreak flags c
  split
  · unfold scanPrivateName
    dsimp only
    split <;> rfl
  split
  · rfl
  · unfold scanPunctuator
    split <;> rfl

namespace Token

theorem tokenStart_gap (c : Cursor) : (gap c).tokenStart = (after c).start := by
  unfold Trivia.tokenStart
  cases h : (gap c).unclosed with
  | some opening => rw [after_of_unclosed h, Option.getD_some]
  | none => rw [after_of_closed h, (scanAt_liesAt _ _).start_eq, Option.getD_none]

/-- Before the token that follows a cursor there is only spacing, and the token notes
whether a line terminator is in it. -/
theorem after_passes (c : Cursor) :
    ∃ cs, c.rest = cs ++ (after c).start.rest ∧
      (after c).start.offset = c.offset + utf8Len cs ∧
      SpacingFrom c.offset (after c).start.rest cs ∧
      ((after c).fault ≠ some .unclosedComment →
        (after c).afterLineBreak = cs.any isLineBreak) := by
  obtain ⟨passed, hpassed⟩ :=
    skipTrivia_passes false (skipInterpreterLine c).offset (skipInterpreterLine c).rest
  change (gap c).Passes false (skipInterpreterLine c) passed at hpassed
  have hflag : (after c).fault ≠ some .unclosedComment →
      (after c).afterLineBreak = passed.any isLineBreak := by
    intro hfault
    cases h : (gap c).unclosed with
    | some opening => exact absurd (after_of_unclosed h ▸ rfl) hfault
    | none =>
      rw [after_of_closed h, afterLineBreak, scanAt_lineBreak]
      exact hpassed.lineBreak_eq h
  have hrest := hpassed.rest_eq
  have hoffset := hpassed.offset_eq
  have hspacing := hpassed.spacing
  rw [tokenStart_gap] at hrest hoffset hspacing
  rcases skipInterpreterLine_passes c with heq | ⟨hzero, line, hline, hlen, hnone, hend⟩
  · rw [heq] at hrest hoffset
    exact ⟨passed, hrest, hoffset, .inl hspacing, hflag⟩
  · refine ⟨'#' :: '!' :: line ++ passed, ?_, ?_, .inr ⟨hzero, line, passed, rfl, hnone, ?_,
      hspacing⟩, fun hfault => ?_⟩
    · rw [hline, hrest, List.append_assoc]
    · rw [hoffset, hlen, String.utf8Len_append, Nat.add_assoc]
    · rwa [← hrest]
    · have hsigns : isLineBreak '#' = false ∧ isLineBreak '!' = false := by decide
      have hany : line.any isLineBreak = false := any_isLineBreak_eq_false hnone
      rw [hflag hfault, List.any_append, List.any_cons, List.any_cons, hany, hsigns.1, hsigns.2]
      rfl

section

variable {text : String} {c : Cursor}

/-- Before the token that follows a cursor there is only spacing. -/
theorem onlySpacing_after (hc : (Cursor.start text).Before c) :
    OnlySpacing text c.offset (after c).start.offset := by
  obtain ⟨cs, hrest, hoffset, hspacing, -⟩ := after_passes c
  exact ⟨cs, _, between_of_passed hc hrest hoffset, hspacing⟩

/-- A token notes exactly whether a line terminator is before it. -/
theorem afterLineBreak_iff (hc : (Cursor.start text).Before c)
    (hfault : (after c).fault ≠ some .unclosedComment) :
    (after c).afterLineBreak = true ↔ HasLineBreak text c.offset (after c).start.offset := by
  obtain ⟨cs, hrest, hoffset, -, hflag⟩ := after_passes c
  have hbetween := between_of_passed hc hrest hoffset
  rw [hflag hfault, any_isLineBreak_iff]
  refine ⟨fun h => ⟨cs, _, hbetween, h⟩, ?_⟩
  rintro ⟨cs', ahead, hbetween', hbreak⟩
  rwa [(hbetween.unique hbetween').1]

end

end Token

end ModuleBundler
