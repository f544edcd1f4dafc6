import Mathlib.Data.Nat.Find
import ModuleBundler.Proofs.Spacing

/-!
# ModuleBundler — the tokens of a text

Reading one token after the other loses nothing of a text: what a token does not
cover is spacing, and whether a token covers a word, a whole literal or only the
place of a fault, it takes a character at least. So the end of the text is reached
after at most as many tokens as there are bytes, and it stays reached.

* `scanned` — the tokens of a text in the order in which they are read.
* `Token.Follows` — how a token lies behind another one.
* `tokens_lossless` — each token follows the one before it, up to the end of the text.
-/

namespace ModuleBundler

open Text (Cursor)

-- ---------------------------------------------------------------------------
-- The end of a text
-- ---------------------------------------------------------------------------

/-- The end of the text is met where no character is ahead, and nowhere else. -/
theorem scanAt_kind_eq_endOfFile (flags : TokenFlags) (c : Cursor) :
    (scanAt flags c).kind = .endOfFile ↔ c.rest = [] := by
  unfold scanAt
  split
  · case _ hrest => simp [hrest]
  case _ ch cs hrest =>
  rw [hrest]
  refine iff_of_false ?_ (List.cons_ne_nil ch cs)
  split
  · unfold scanString
    dsimp only
    split <;> simp
  split
  · unfold scanTemplate
    dsimp only
    split <;> simp
  split
  · unfold scanNumber
    dsimp only
    split
    · simp
    split
    · simp
    split <;> simp
  split
  · unfold scanPrivateName
    dsimp only
    split <;> simp
  split
  · unfold scanWord TokenKind.ofWord
    dsimp only
    split <;> simp
  · unfold scanPunctuator
    split <;> simp

/-- The text ends in a comment that is not closed, behind the signs that open it. -/
theorem skipTrivia_unclosed_rest (region : TriviaRegion) (lineBreak : Bool) (offset : Nat)
    {cs : List Char} (hr : ∀ o, region.unclosed = some o → o.rest ≠ []) :
    ∀ o, (skipTrivia region lineBreak offset cs).unclosed = some o →
      o.rest ≠ [] ∧ (skipTrivia region lineBreak offset cs).stop.rest = [] := by
  induction cs generalizing region lineBreak offset with
  | nil => exact fun o ho => ⟨hr o ho, rfl⟩
  | cons c cs ih =>
    have hnone : ∀ o, TriviaRegion.unclosed .outside = some o → o.rest ≠ [] := by
      intro o ho
      cases ho
    cases region with
    | outside =>
      simp only [skipTrivia]
      split
      · exact ih .lineComment _ _ hnone
      split
      · refine ih (.blockOpening ⟨offset, c :: cs⟩) _ _ fun o ho => ?_
        obtain rfl := Option.some.inj ho
        exact List.cons_ne_nil c cs
      split
      · exact ih _ _ _ hnone
      split
      · exact ih _ _ _ hnone
      · intro o ho
        cases ho
    | lineComment =>
      simp only [skipTrivia]
      split
      · exact ih .outside _ _ hnone
      · exact ih .lineComment _ _ hnone
    | blockOpening opening => exact ih (.blockComment opening) _ _ hr
    | blockComment opening =>
      simp only [skipTrivia]
      split
      · exact ih .blockClosing _ _ hnone
      · exact ih (.blockComment opening) _ _ hr
    | blockClosing => exact ih .outside _ _ hnone

namespace Token

section

variable {text : String} {c : Cursor}

/-- The token that follows a cursor is the end of the text, where it is empty and
nothing is ahead of it, or it is not empty. -/
theorem after_end_or_lt (c : Cursor) :
    (after c).kind = .endOfFile ∧ (after c).start = (after c).stop ∧ (after c).stop.rest = [] ∨
      (after c).kind ≠ .endOfFile ∧ (after c).start.offset < (after c).stop.offset := by
  cases h : (gap c).unclosed with
  | some opening =>
    obtain ⟨hopening, hstop⟩ := skipTrivia_unclosed_rest .outside false _ nofun opening h
    have hbefore := (gap_unclosed h).2
    rw [after_of_unclosed h]
    refine .inr ⟨nofun, Nat.lt_of_not_le fun hle => hopening ?_⟩
    rw [hbefore.eq_of_offset_le hle]
    exact hstop
  | none =>
    rw [after_of_closed h, (scanAt_liesAt _ _).start_eq, ne_eq, scanAt_kind_eq_endOfFile]
    by_cases hrest : (gap c).stop.rest = []
    · have hstop : ∀ flags, scanAt flags (gap c).stop =
          ⟨.endOfFile, (gap c).stop, (gap c).stop, "", flags, none⟩ := by
        intro flags
        unfold scanAt
        simp [hrest]
      rw [hstop]
      exact .inl ⟨hrest, rfl, hrest⟩
    · exact .inr ⟨hrest, (scanAt_liesAt _ _).lt hrest⟩

/-- A token follows another one in a text: it lies behind it, inside the text and between
characters, with nothing but spacing before it, and notes whether a line terminator is in
the spacing. It is not empty unless it is the end of the text. -/
structure Follows (text : String) (t u : Token) : Prop where
  before : t.span.stop ≤ u.span.start
  start_le : u.span.start ≤ u.span.stop
  inside : u.span.stop ≤ text.utf8ByteSize
  startValid : String.Pos.Raw.isValid text ⟨u.span.start⟩ = true
  stopValid : String.Pos.Raw.isValid text ⟨u.span.stop⟩ = true
  spacing : OnlySpacing text t.span.stop u.span.start
  lineBreak : u.fault ≠ some .unclosedComment →
    (u.afterLineBreak = true ↔ HasLineBreak text t.span.stop u.span.start)
  nonempty : u.kind ≠ .endOfFile → u.span.start < u.span.stop
  atEnd : u.kind = .endOfFile → u.span = .point text.utf8ByteSize

/-- A token on a text is followed by the next one. -/
theorem next_follows {t : Token} (ht : (Cursor.start text).Before t.stop) :
    t.Follows text t.next := by
  have hstart := before_after_start t.stop
  have hstop := after_start_before t.stop
  have hinside := ht.trans hstart
  rw [next_eq]
  refine ⟨hstart.offset_le, hstop.offset_le, (hinside.trans hstop).offset_le_size,
    Text.isValid_of_before hinside, Text.isValid_of_before (hinside.trans hstop),
    onlySpacing_after ht, afterLineBreak_iff ht, fun hmore => ?_, fun hend => ?_⟩
  · rcases after_end_or_lt t.stop with ⟨hend, -⟩ | ⟨-, hlt⟩
    · exact absurd hend hmore
    · exact hlt
  · rcases after_end_or_lt t.stop with ⟨-, heq, hrest⟩ | ⟨hmore, -⟩
    · have hsize := (hinside.trans hstop).offset_eq_size hrest
      unfold span
      rw [heq, hsize, Text.Span.point]
    · exact absurd hend hmore

end

/-- After the end of the text comes the end of the text. -/
theorem next_endOfFile {t : Token} (hrest : t.stop.rest = []) : t.next.kind = .endOfFile := by
  have hstop : t.stop = ⟨t.stop.offset, []⟩ := congrArg (Cursor.mk t.stop.offset) hrest
  rw [next_eq, hstop]
  exact after_end _

end Token

-- ---------------------------------------------------------------------------
-- All tokens
-- ---------------------------------------------------------------------------

/-- The tokens of a text in the order in which they are read, and before them the state
before the first one. -/
def scanned (text : String) : Nat → Token
  | 0 => Token.initial text
  | n + 1 => (scanned text n).next

section Scanned

variable {text : String}

theorem start_before_scanned (n : Nat) : (Cursor.start text).Before (scanned text n).stop := by
  induction n with
  | zero => exact .refl _
  | succ n ih =>
    rw [scanned, Token.next_eq]
    exact ih.trans ((Token.before_after_start _).trans (Token.after_start_before _))

/-- Before the end of the text each token takes a byte at least. -/
theorem le_stop_scanned {n : Nat} (hmore : ∀ m < n, (scanned text (m + 1)).kind ≠ .endOfFile) :
    n ≤ (scanned text n).span.stop := by
  induction n with
  | zero => exact Nat.zero_le _
  | succ n ih =>
    have hprev := ih fun m hm => hmore m (Nat.lt_succ_of_lt hm)
    have hnext := Token.next_follows (@start_before_scanned text n)
    have hlt := hnext.nonempty (hmore n (Nat.lt_succ_self n))
    have hbefore := hnext.before
    rw [scanned]
    omega

/-- The end of the text is met after as many tokens as there are bytes, if not earlier. -/
theorem exists_scanned_endOfFile (text : String) :
    ∃ k ≤ text.utf8ByteSize, (scanned text (k + 1)).kind = .endOfFile := by
  by_contra hnone
  push Not at hnone
  have hle : text.utf8ByteSize + 1 ≤ _ :=
    le_stop_scanned fun m hm => hnone m (Nat.le_of_lt_succ hm)
  have hsize := (@start_before_scanned text (text.utf8ByteSize + 1)).offset_le_size
  exact Nat.not_succ_le_self _ (hle.trans hsize)

/-- The end of the text, once it is met, stays met. -/
theorem scanned_endOfFile {k n : Nat} (hend : (scanned text (k + 1)).kind = .endOfFile)
    (hle : k ≤ n) : (scanned text (n + 1)).kind = .endOfFile := by
  induction n, hle using Nat.le_induction with
  | base => exact hend
  | succ n _ ih =>
    rcases Token.after_end_or_lt (scanned text n).stop with ⟨-, -, hrest⟩ | ⟨hmore, -⟩
    · exact Token.next_endOfFile hrest
    · exact absurd ih hmore

/-- All tokens from one on, if the fuel is enough. -/
theorem tokens_go {k : Nat} (hend : ∀ n, (scanned text (n + 1)).kind = .endOfFile ↔ k ≤ n)
    {m fuel : Nat} (hm : m ≤ k) (hfuel : k ≤ m + fuel) (acc : Array Token) :
    (tokens.go fuel (scanned text (m + 1)) acc).toList =
      acc.toList ++ (List.range' m (k + 1 - m)).map fun n => scanned text (n + 1) := by
  induction fuel generalizing m acc with
  | zero =>
    obtain rfl : m = k := by omega
    simp [tokens.go]
  | succ fuel ih =>
    by_cases hlast : k ≤ m
    · obtain rfl : m = k := by omega
      simp [tokens.go, (hend m).2 hlast]
    · have hcount : k + 1 - m = k + 1 - (m + 1) + 1 := by omega
      have hgo := ih (m := m + 1) (by omega) (by omega) (acc.push (scanned text (m + 1)))
      rw [tokens.go, if_neg (mt (hend m).1 hlast), ← scanned, hgo, hcount, List.range'_succ]
      simp

/-- Reading tokens loses nothing of a text. Each token follows the one before it; the end
of the text comes after at most as many tokens as there are bytes and stays; and the tokens
of the text are those up to its end. -/
theorem tokens_lossless (text : String) :
    (∀ n, (scanned text n).Follows text (scanned text (n + 1))) ∧
      ∃ k ≤ text.utf8ByteSize,
        (∀ n, (scanned text (n + 1)).kind = .endOfFile ↔ k ≤ n) ∧
          (tokens text).toList = (List.range (k + 1)).map fun n => scanned text (n + 1) := by
  refine ⟨fun n => Token.next_follows (start_before_scanned n), ?_⟩
  have hexists : ∃ k, (scanned text (k + 1)).kind = .endOfFile :=
    (exists_scanned_endOfFile text).imp fun _ h => h.2
  obtain ⟨bound, hbound, hlast⟩ := exists_scanned_endOfFile text
  have hle : Nat.find hexists ≤ text.utf8ByteSize := (Nat.find_min' hexists hlast).trans hbound
  have hend : ∀ n, (scanned text (n + 1)).kind = .endOfFile ↔ Nat.find hexists ≤ n := by
    intro n
    exact ⟨Nat.find_min' hexists, scanned_endOfFile (Nat.find_spec hexists)⟩
  refine ⟨Nat.find hexists, hle, hend, ?_⟩
  have hgo := @tokens_go text _ hend 0 (text.utf8ByteSize + 1) (Nat.zero_le _) (by omega) #[]
  refine hgo.trans ?_
  rw [List.nil_append, List.range_eq_range', Nat.sub_zero]

end Scanned

end ModuleBundler
