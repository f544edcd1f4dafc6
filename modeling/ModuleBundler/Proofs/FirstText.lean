import ModuleBundler.Proofs.Spacing

/-!
# ModuleBundler — the first text behind spacing

Before a token the tokenizer passes nothing but spacing; this is the other half. All the
spacing is passed, whatever of it there is, so that the next token is the one that begins
where the spacing ends. A comment in a block ends at its first closing sign, which is why
its body may not hold that sign, and a comment of one line ends with the line.

* `Spacing.skipTrivia_eq` — spacing is passed whole.
* `scanAt_eq_or` — numerals and punctuators are read where their kind says so.
* `Bare` — characters that no spacing begins with.
* `Token.after_spacing` — the token behind spacing is the one that begins there.
* `Token.after_eq_scanAt` — every token but a comment that is not closed is read so.
-/

namespace ModuleBundler

open Text
open String (utf8Len)

-- ---------------------------------------------------------------------------
-- Comments
-- ---------------------------------------------------------------------------

/-- The rest of a comment of one line is passed. -/
theorem skipTrivia_lineBody {body rest : List Char} (hbody : ∀ c ∈ body, c ∉ lineTerminators)
    (hend : EndsLine rest) (lineBreak : Bool) (offset : Nat) :
    skipTrivia .lineComment lineBreak offset (body ++ rest) =
      skipTrivia .outside lineBreak (offset + utf8Len body) rest := by
  induction body generalizing offset with
  | nil =>
    cases rest with
    | nil => rfl
    | cons c rest =>
      have hbreak : isLineBreak c = true := isLineBreak_iff.2 (hend c rfl)
      have hslash : c ≠ '/' := by
        rintro rfl
        exact absurd hbreak (by decide)
      simp [skipTrivia, hbreak, hslash]
  | cons c body ih =>
    obtain ⟨hc, hbody⟩ := List.forall_mem_cons.1 hbody
    rw [List.cons_append, skipTrivia, if_neg (mt isLineBreak_iff.1 hc), ih hbody,
      String.utf8Len_cons]
    congr 1
    omega

/-- The rest of a comment in a block is passed, up to and with its closing sign. -/
theorem skipTrivia_blockBody {body : List Char} (hbody : ¬['*', '/'] <:+: body) (opening : Cursor)
    (lineBreak : Bool) (offset : Nat) (rest : List Char) :
    skipTrivia (.blockComment opening) lineBreak offset (body ++ '*' :: '/' :: rest) =
      skipTrivia .outside (lineBreak || body.any isLineBreak) (offset + utf8Len body + 2) rest := by
  induction body generalizing lineBreak offset with
  | nil => simp [skipTrivia, Char.utf8Size]
  | cons c body ih =>
    have hopen : ¬(c = '*' ∧ (body ++ '*' :: '/' :: rest).head? = some '/') := by
      rintro ⟨rfl, hslash⟩
      cases body with
      | nil => simp at hslash
      | cons d body =>
        obtain rfl : d = '/' := by simpa using hslash
        exact hbody (List.infix_cons_iff.2 (.inl (by simp)))
    have hrest : ¬['*', '/'] <:+: body := by
      intro hinside
      exact hbody (List.infix_cons_iff.2 (.inr hinside))
    have hstep : skipTrivia (.blockComment opening) lineBreak offset
        (c :: (body ++ '*' :: '/' :: rest)) =
        skipTrivia (.blockComment opening) (lineBreak || isLineBreak c) (offset + c.utf8Size)
          (body ++ '*' :: '/' :: rest) := by
      rw [skipTrivia, if_neg (by simpa using hopen)]
    rw [List.cons_append, hstep, ih hrest, String.utf8Len_cons, List.any_cons, Bool.or_assoc]
    congr 1
    omega

-- ---------------------------------------------------------------------------
-- All spacing
-- ---------------------------------------------------------------------------

/-- Spacing is passed whole, and its line terminators are noted. -/
theorem Spacing.skipTrivia_eq {ahead cs : List Char} (h : Spacing ahead cs) (lineBreak : Bool)
    (offset : Nat) :
    skipTrivia .outside lineBreak offset (cs ++ ahead) =
      skipTrivia .outside (lineBreak || cs.any isLineBreak) (offset + utf8Len cs) ahead := by
  induction h generalizing lineBreak offset with
  | nil => simp
  | @blank c cs hc rest ih =>
    have hslash : c ≠ '/' := by
      rintro rfl
      revert hc
      decide
    have hstep : skipTrivia .outside lineBreak offset (c :: (cs ++ ahead)) =
        skipTrivia .outside (lineBreak || isLineBreak c) (offset + c.utf8Size) (cs ++ ahead) := by
      cases hbreak : isLineBreak c with
      | true => simp [skipTrivia, hslash, hbreak]
      | false =>
        have hblank := isBlank_iff.2 (hc.resolve_right (isLineBreak_eq_false_iff.1 hbreak))
        simp [skipTrivia, hslash, hbreak, hblank]
    rw [List.cons_append, hstep, ih, String.utf8Len_cons, List.any_cons, Bool.or_assoc]
    congr 1
    omega
  | @lineComment body cs hbody hend rest ih =>
    have hsign : isLineBreak '/' = false := by decide
    have hnone : body.any isLineBreak = false := any_isLineBreak_eq_false hbody
    have hopen : skipTrivia .outside lineBreak offset ('/' :: '/' :: (body ++ (cs ++ ahead))) =
        skipTrivia .lineComment lineBreak (offset + 2) (body ++ (cs ++ ahead)) := by
      simp [skipTrivia, hsign, Char.utf8Size]
    have hany : ('/' :: '/' :: (body ++ cs)).any isLineBreak = cs.any isLineBreak := by
      simp [hsign, hnone]
    have hlen : utf8Len ('/' :: '/' :: (body ++ cs)) = 2 + utf8Len body + utf8Len cs := by
      simp [String.utf8Len_cons, String.utf8Len_append, Char.utf8Size]
      omega
    rw [List.cons_append, List.cons_append, List.append_assoc, hopen,
      skipTrivia_lineBody hbody hend, ih, hany, hlen]
    congr 1
    omega
  | @blockComment body cs hbody rest ih =>
    have hsigns : isLineBreak '/' = false ∧ isLineBreak '*' = false := by decide
    have hopen : skipTrivia .outside lineBreak offset
        ('/' :: '*' :: (body ++ '*' :: '/' :: (cs ++ ahead))) =
        skipTrivia (.blockComment ⟨offset, '/' :: '*' :: (body ++ '*' :: '/' :: (cs ++ ahead))⟩)
          lineBreak (offset + 2) (body ++ '*' :: '/' :: (cs ++ ahead)) := by
      simp [skipTrivia, Char.utf8Size]
    have hany : ('/' :: '*' :: (body ++ '*' :: '/' :: cs)).any isLineBreak =
        (body.any isLineBreak || cs.any isLineBreak) := by
      simp [hsigns]
    have hlen : utf8Len ('/' :: '*' :: (body ++ '*' :: '/' :: cs)) =
        2 + utf8Len body + 2 + utf8Len cs := by
      simp [String.utf8Len_cons, String.utf8Len_append, Char.utf8Size]
      omega
    have hassoc : '/' :: '*' :: (body ++ '*' :: '/' :: cs) ++ ahead =
        '/' :: '*' :: (body ++ '*' :: '/' :: (cs ++ ahead)) := by
      simp
    rw [hassoc, hopen, skipTrivia_blockBody hbody, ih, hany, hlen, Bool.or_assoc]
    congr 1
    omega

/-- An interpreter line is passed up to its end. -/
theorem skipInterpreterLine_eq {line rest : List Char} (hline : ∀ c ∈ line, c ∉ lineTerminators)
    (hend : EndsLine rest) :
    skipInterpreterLine ⟨0, '#' :: '!' :: (line ++ rest)⟩ =
      ⟨utf8Len ('#' :: '!' :: line), rest⟩ := by
  have hall : ∀ c ∈ '#' :: '!' :: line, (!isLineBreak c) = true := by
    rw [List.forall_mem_cons, List.forall_mem_cons]
    exact ⟨by decide, by decide, fun c hc => by simpa [isLineBreak_eq_false_iff] using hline c hc⟩
  have hstop : rest.takeWhile (!isLineBreak ·) = [] ∧ rest.dropWhile (!isLineBreak ·) = rest := by
    cases rest with
    | nil => exact ⟨rfl, rfl⟩
    | cons c rest =>
      have hbreak : isLineBreak c = true := isLineBreak_iff.2 (hend c rfl)
      simp [hbreak]
  have hsplit : '#' :: '!' :: (line ++ rest) = '#' :: '!' :: line ++ rest := rfl
  rw [skipInterpreterLine, Cursor.skipWhile, skipWhile_go_eq, hsplit,
    List.takeWhile_append_of_pos hall, List.dropWhile_append_of_pos hall, hstop.1, hstop.2,
    List.append_nil, Nat.zero_add]
  rfl

/-- A comment that is not closed begins with a slash. -/
theorem skipTrivia_unclosed_head (region : TriviaRegion) (lineBreak : Bool) (offset : Nat)
    (cs : List Char) (hr : ∀ o, region.unclosed = some o → o.rest.head? = some '/') :
    ∀ o, (skipTrivia region lineBreak offset cs).unclosed = some o → o.rest.head? = some '/' := by
  induction cs generalizing region lineBreak offset with
  | nil => exact hr
  | cons c cs ih =>
    have hnone : ∀ o, TriviaRegion.unclosed .outside = some o → o.rest.head? = some '/' := by
      intro o ho
      exact absurd ho (Option.some_ne_none o).symm
    cases region with
    | outside =>
      simp only [skipTrivia]
      split
      · exact ih .lineComment _ _ hnone
      split
      · case _ hblock =>
        refine ih (.blockOpening ⟨offset, c :: cs⟩) _ _ fun o ho => ?_
        obtain rfl := Option.some.inj ho
        rw [Bool.and_eq_true, decide_eq_true_eq] at hblock
        exact congrArg some hblock.1
      split
      · exact ih _ _ _ hnone
      split
      · exact ih _ _ _ hnone
      · exact hnone
    | lineComment =>
      simp only [skipTrivia]
      split
      · exact ih .outside _ _ hnone
      · exact ih .lineComment _ _ hnone
    | blockOpening opening => exact ih (.blockComment opening) _ _ hr
    | blockComment opening =>
      simp only [skipTrivia]
      split
      · exact ih .blockClosing _ _ hnone
      · exact ih (.blockComment opening) _ _ hr
    | blockClosing => exact ih .outside _ _ hnone

-- ---------------------------------------------------------------------------
-- Numerals, punctuators, and other tokens
-- ---------------------------------------------------------------------------

/-- The kinds of numerals. -/
def TokenKind.IsNumeral : TokenKind → Prop
  | .number | .bigInt => True
  | _ => False

theorem TokenKind.IsNumeral.cases {k : TokenKind} (h : k.IsNumeral) :
    k = .number ∨ k = .bigInt := by
  unfold TokenKind.IsNumeral at h
  split at h
  · exact .inl rfl
  · exact .inr rfl
  · exact h.elim

/-- The kinds of what is neither a numeral nor a punctuator. -/
def TokenKind.IsOther : TokenKind → Prop
  | .number | .bigInt | .punct _ => False
  | _ => True

/-- A numeral begins with a digit, or with a point before one. -/
def BeginsNumeral : List Char → Prop
  | [] => False
  | c :: cs => isDigit c = true ∨ c = '.' ∧ cs.head?.any isDigit = true

section Readers

variable (flags : TokenFlags) (c : Cursor)

/-- Where numerals are read, one is read, or a fault of one. -/
theorem scanNumber_kind :
    (scanNumber flags c).kind.IsNumeral ∨ (scanNumber flags c).kind = .unknown ∧
      (scanNumber flags c).fault.isSome = true := by
  unfold scanNumber
  dsimp only
  split
  · case _ hfault => exact .inr ⟨rfl, hfault⟩
  split
  · exact .inl trivial
  split
  · exact .inr ⟨rfl, rfl⟩
  · exact .inl trivial

/-- Where punctuators are looked for, one is read, or a character that begins no token. -/
theorem scanPunctuator_kind :
    (∃ p, (scanPunctuator flags c).kind = .punct p) ∨ (scanPunctuator flags c).kind = .unknown := by
  unfold scanPunctuator
  split
  · exact .inl ⟨_, rfl⟩
  · exact .inr rfl

/-- A token of another kind aside, a token is read as a punctuator or as a numeral. -/
theorem scanAt_eq_or :
    (scanAt flags c).kind.IsOther ∨ scanAt flags c = scanPunctuator flags c ∨
      scanAt flags c = scanNumber flags c ∧ BeginsNumeral c.rest := by
  unfold scanAt
  split
  · exact .inl trivial
  case _ ch cs hrest =>
  split
  · left
    unfold scanString
    dsimp only
    split <;> exact trivial
  split
  · left
    unfold scanTemplate
    dsimp only
    split <;> exact trivial
  split
  · case _ hnumber =>
    rw [Bool.or_eq_true, Bool.and_eq_true, decide_eq_true_eq] at hnumber
    rw [hrest]
    exact .inr (.inr ⟨rfl, hnumber⟩)
  split
  · left
    unfold scanPrivateName
    dsimp only
    split <;> exact trivial
  split
  · left
    unfold scanWord TokenKind.ofWord
    dsimp only
    split <;> exact trivial
  · exact .inr (.inl rfl)

end Readers

-- ---------------------------------------------------------------------------
-- The token behind spacing
-- ---------------------------------------------------------------------------

/-- No spacing begins these characters. -/
def Bare (ahead : List Char) : Prop :=
  ∀ cs rest, ahead = cs ++ rest → Spacing rest cs → cs = []

/-- A comment in a block that is not closed. -/
def OpensComment (ahead : List Char) : Prop :=
  ∃ body, ahead = '/' :: '*' :: body ∧ ¬['*', '/'] <:+: body

/-- What stands before the first closing sign of a comment. -/
theorem exists_body_of_closed {cs : List Char} (h : ['*', '/'] <:+: cs) :
    ∃ body rest, cs = body ++ '*' :: '/' :: rest ∧ ¬['*', '/'] <:+: body := by
  induction cs with
  | nil => simp at h
  | cons c cs ih =>
    by_cases hfirst : ['*', '/'] <+: c :: cs
    · obtain ⟨rest, hrest⟩ := hfirst
      exact ⟨[], rest, hrest.symm, by simp⟩
    · obtain ⟨body, rest, rfl, hbody⟩ := ih ((List.infix_cons_iff.1 h).resolve_left hfirst)
      refine ⟨c :: body, rest, rfl, ?_⟩
      intro hinside
      rcases List.infix_cons_iff.1 hinside with ⟨more, hmore⟩ | hinside
      · exact hfirst ⟨more ++ '*' :: '/' :: rest, by rw [← List.append_assoc, hmore]; rfl⟩
      · exact hbody hinside

/-- Bare characters that open no comment begin a token, unless they are an interpreter
line. -/
theorem Bare.begins {c : Char} {cs : List Char} (h : Bare (c :: cs))
    (hopens : ¬OpensComment (c :: cs)) (hline : c = '#' → cs.head? ≠ some '!') :
    Begins (c :: cs) := by
  have hone : ∀ hc : isBlank c = true ∨ isLineBreak c = true, False := by
    intro hc
    have hspacing := hc.imp isBlank_iff.1 isLineBreak_iff.1
    exact List.cons_ne_nil _ _ (h [c] cs rfl (.blank hspacing .nil))
  refine ⟨?_, ?_, ?_, hline⟩
  · exact Bool.eq_false_iff.2 fun hbreak => hone (.inr hbreak)
  · exact Bool.eq_false_iff.2 fun hblank => hone (.inl hblank)
  · rintro rfl
    refine ⟨fun hslash => ?_, fun hstar => ?_⟩
    · -- a comment up to the end of the line would begin here
      obtain ⟨cs, rfl⟩ := List.head?_eq_some_iff.1 hslash
      have hbody : ∀ c ∈ cs.takeWhile (!isLineBreak ·), c ∉ lineTerminators :=
        fun c hc => notMem_of_mem_takeWhile hc
      have hend : EndsLine ([] ++ cs.dropWhile (!isLineBreak ·)) := endsLine_dropWhile cs
      refine List.cons_ne_nil _ _ (h _ _ ?_ (.lineComment hbody hend .nil))
      simp
    · obtain ⟨cs, rfl⟩ := List.head?_eq_some_iff.1 hstar
      by_cases hclosed : ['*', '/'] <:+: cs
      · obtain ⟨body, rest, rfl, hbody⟩ := exists_body_of_closed hclosed
        refine List.cons_ne_nil _ _ (h _ rest ?_ (.blockComment hbody .nil))
        simp
      · exact hopens ⟨cs, rfl, hclosed⟩

namespace Token

/-- The token behind spacing is the one that begins where the spacing ends. -/
theorem after_spacing {c : Cursor} {passed ahead : List Char} (hrest : c.rest = passed ++ ahead)
    (hspacing : SpacingFrom c.offset ahead passed) (hbegins : Begins ahead) :
    after c = scanAt { lineBreak := passed.any isLineBreak } ⟨c.offset + utf8Len passed, ahead⟩ := by
  obtain ⟨offset, rest⟩ := c
  obtain rfl : rest = passed ++ ahead := hrest
  have hgap : gap ⟨offset, passed ++ ahead⟩ =
      ⟨passed.any isLineBreak, ⟨offset + utf8Len passed, ahead⟩, none⟩ := by
    rcases hspacing with hspacing | ⟨hzero, line, rest, rfl, hline, hend, hspacing⟩
    · have hsame : skipInterpreterLine ⟨offset, passed ++ ahead⟩ = ⟨offset, passed ++ ahead⟩ := by
        unfold skipInterpreterLine
        split
        · case _ cs _ hsharp =>
          -- no spacing and no token begins with the signs of an interpreter line
          exfalso
          change passed ++ ahead = '#' :: '!' :: cs at hsharp
          cases hspacing with
          | nil =>
            rw [List.nil_append] at hsharp
            rw [hsharp] at hbegins
            exact hbegins.2.2.2 rfl rfl
          | blank hc rest =>
            obtain rfl := (List.cons.inj hsharp).1
            revert hc
            decide
          | lineComment hbody hend rest => exact absurd (List.cons.inj hsharp).1 (by decide)
          | blockComment hbody rest => exact absurd (List.cons.inj hsharp).1 (by decide)
        · rfl
      rw [gap, hsame, hspacing.skipTrivia_eq, skipTrivia_of_begins hbegins, Bool.false_or]
    · obtain rfl : offset = 0 := hzero
      have hsigns : isLineBreak '#' = false ∧ isLineBreak '!' = false := by decide
      have hnone : line.any isLineBreak = false := any_isLineBreak_eq_false hline
      have hassoc : '#' :: '!' :: (line ++ rest) ++ ahead =
          '#' :: '!' :: (line ++ (rest ++ ahead)) := by
        simp
      have hany : ('#' :: '!' :: (line ++ rest)).any isLineBreak = rest.any isLineBreak := by
        simp [hsigns, hnone]
      have hlen : utf8Len ('#' :: '!' :: (line ++ rest)) =
          utf8Len ('#' :: '!' :: line) + utf8Len rest := by
        rw [← String.utf8Len_append]
        rfl
      rw [gap, hassoc, skipInterpreterLine_eq hline hend, hspacing.skipTrivia_eq,
        skipTrivia_of_begins hbegins, hany, hlen, Bool.false_or, Nat.zero_add]
  rw [after_of_closed (by rw [hgap]), hgap]

/-- A token that begins with no slash is read where it begins. -/
theorem after_eq_scanAt {c : Cursor} (h : (after c).start.rest.head? ≠ some '/') :
    ∃ flags, after c = scanAt flags (after c).start := by
  cases hgap : (gap c).unclosed with
  | some opening =>
    have hslash := skipTrivia_unclosed_head .outside false (skipInterpreterLine c).offset
      (skipInterpreterLine c).rest nofun opening hgap
    rw [after_of_unclosed hgap] at h
    exact absurd hslash h
  | none =>
    rw [after_of_closed hgap, (scanAt_liesAt _ _).start_eq]
    exact ⟨_, rfl⟩

end Token

end ModuleBundler
