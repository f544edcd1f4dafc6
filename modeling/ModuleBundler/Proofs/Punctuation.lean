import ModuleBundler.Proofs.FirstText
import ModuleBundler.Proofs.Specifiers

/-!
# ModuleBundler — punctuation is read by longest match

Which punctuator a text begins with is told by comparing up to three characters behind the
first one, in an arm for each first character that asks for longer punctuators first. That
no arm is missing or in the wrong place, and that each takes as many characters as its
punctuator is written with, is a matter of the text of the punctuators alone. One of them is
passed over where it is ahead: `?.` with a digit behind it is a question mark and a
fraction. And a text that begins with a punctuator is read as one, unless the character
stands for something else there: a point before a digit begins a number, and a slash may
open a comment.

* `Punctuator.length_le_of_read?`, `Punctuator.isSome_read?` — the arms against the texts.
* `Punctuator.longest_of_ahead?`, `Punctuator.exists_ahead?` — which punctuator is read.
* `next_punctuator` — the tokens that are punctuators.
-/

namespace ModuleBundler

open Text
open String (utf8Len)

/-- A digit stands behind `?.`, which makes it a question mark and a fraction. -/
def QuestionFraction (cs : List Char) : Prop :=
  ∃ d : Char, d.isDigit = true ∧ ['?', '.', d] <+: cs

namespace Punctuator

-- ---------------------------------------------------------------------------
-- Arms
-- ---------------------------------------------------------------------------

variable {p q : Punctuator} {ch : Char} {next₁ next₂ next₃ : Option Char} {cs : List Char} {n : Nat}

/-- What a punctuator begins with begins nothing else, but for a point and a slash. -/
theorem head_text (p : Punctuator) :
    ∃ c cs, p.text.toList = c :: cs ∧ isDigit c = false ∧ isNameStart c = false ∧ c ≠ '#' ∧
      c ≠ '"' ∧ c ≠ '\'' ∧ c ≠ '`' := by
  cases p <;> exact ⟨_, _, rfl, by decide⟩

/-- A longer punctuator would have been read, but for `?.` before a digit. -/
theorem length_le_of_read? (h : read? ch next₁ next₂ next₃ = some (p, n))
    (hq : q.Told ch next₁ next₂ next₃)
    (hdot : ¬(q = .questionDot ∧ next₂.any isDigit = true)) : q.text.length ≤ n := by
  have hpos : 0 < n := by
    rw [(read?_eq_some h).1]
    exact Nat.pos_of_ne_zero p.text_ne_empty
  cases q
  -- what is read has a character
  all_goals try exact hpos
  all_goals
    simp only [Told, text, String.reduceToList, List.map_cons, List.map_nil,
      List.cons_prefix_cons, List.nil_prefix, and_true, Option.some.injEq] at hq
    casesm* _ ∧ _
    subst_vars
    simp only [read?] at h
    repeat' split at h
  -- an arm for the punctuator or a longer one, or an arm behind it
  all_goals first
    | cases h; decide
    | simp_all

/-- Something is read wherever a punctuator begins. -/
theorem isSome_read? (hq : q.Told ch next₁ next₂ next₃) :
    (read? ch next₁ next₂ next₃).isSome = true := by
  cases q
  all_goals
    simp only [Told, text, String.reduceToList, List.map_cons, List.cons_prefix_cons,
      Option.some.injEq] at hq
    obtain ⟨rfl, -⟩ := hq
    simp only [read?]
    repeat' split
  all_goals rfl

-- ---------------------------------------------------------------------------
-- The longest punctuator
-- ---------------------------------------------------------------------------

/-- The only punctuator that is read where `?.` stands before a digit. -/
theorem eq_question (h : ahead? cs = some (p, n)) (hfraction : QuestionFraction cs) :
    p = .question := by
  obtain ⟨d, hd, rest, rfl⟩ := hfraction
  have hread : read? '?' (some '.') (some d) rest[0]? = some (.question, 1) := if_pos hd
  cases hread.symm.trans h
  rfl

/-- The punctuator that is read is ahead, and no longer one is, but for `?.` before a
digit. -/
theorem longest_of_ahead? (h : ahead? cs = some (p, n)) :
    p.text.toList <+: cs ∧ (QuestionFraction cs → p = .question) ∧
      ∀ q : Punctuator, q.text.toList <+: cs → p.text.length < q.text.length →
        q = .questionDot ∧ QuestionFraction cs := by
  obtain ⟨rfl, hahead⟩ := ahead?_eq_some h
  refine ⟨hahead, eq_question h, fun q hq hlonger => ?_⟩
  obtain ⟨ch, cs, rfl⟩ : ∃ ch ds, cs = ch :: ds := by
    cases cs with
    | nil => cases h
    | cons ch cs => exact ⟨ch, cs, rfl⟩
  have hdot : q = .questionDot ∧ cs[1]?.any isDigit = true := by
    by_contra hdot
    exact absurd (length_le_of_read? h (told_iff.2 hq) hdot) (Nat.not_le.2 hlonger)
  obtain ⟨rfl, hdigit⟩ := hdot
  obtain ⟨d, hd, hdigit⟩ := (Option.any_eq_true _ _).1 hdigit
  obtain ⟨rest, hrest⟩ := hq
  obtain ⟨rfl, rfl⟩ : '?' = ch ∧ '.' :: rest = cs := List.cons.inj hrest
  cases rest with
  | nil => cases hd
  | cons e rest =>
    obtain rfl : e = d := Option.some.inj hd
    exact ⟨rfl, e, hdigit, rest, rfl⟩

/-- A punctuator is read wherever one is ahead. -/
theorem exists_ahead? (h : p.text.toList <+: cs) : ∃ q n, ahead? cs = some (q, n) := by
  cases cs with
  | nil => exact absurd (List.prefix_nil.1 h) (by simpa using p.text_ne_empty)
  | cons ch cs =>
    obtain ⟨⟨q, n⟩, hread⟩ := Option.isSome_iff_exists.1 (isSome_read? (told_iff.2 h))
    exact ⟨q, n, hread⟩

end Punctuator

-- ---------------------------------------------------------------------------
-- One token
-- ---------------------------------------------------------------------------

theorem Text.Cursor.drop_append {m rest : List Char} (offset : Nat) :
    Cursor.drop m.length ⟨offset, m ++ rest⟩ = ⟨offset + utf8Len m, rest⟩ := by
  induction m generalizing offset with
  | nil => rfl
  | cons c m ih =>
    show Cursor.drop m.length ⟨offset + c.utf8Size, m ++ rest⟩ = _
    rw [ih, String.utf8Len_cons]
    congr 1
    omega

/-- A token is a punctuator only where punctuators are looked for. -/
theorem scanAt_eq_of_kind {flags : TokenFlags} {c : Cursor} {p : Punctuator}
    (h : (scanAt flags c).kind = .punct p) : scanAt flags c = scanPunctuator flags c := by
  rcases scanAt_eq_or flags c with hother | heq | ⟨heq, -⟩
  · rw [h] at hother
    exact hother.elim
  · exact heq
  · rw [heq] at h
    rcases scanNumber_kind flags c with hnumeral | ⟨hunknown, -⟩
    · rw [h] at hnumeral
      exact hnumeral.elim
    · rw [h] at hunknown
      cases hunknown

theorem scanPunctuator_of_kind {flags : TokenFlags} {c : Cursor} {p : Punctuator}
    (h : (scanPunctuator flags c).kind = .punct p) :
    ∃ n, Punctuator.ahead? c.rest = some (p, n) ∧
      (scanPunctuator flags c).stop = c.drop n := by
  revert h
  unfold scanPunctuator
  split
  · case _ q n hq =>
    intro h
    cases h
    exact ⟨n, hq, rfl⟩
  · exact nofun

/-- Where a punctuator is ahead and does not begin a number, punctuators are looked for. -/
theorem scanAt_of_ahead (flags : TokenFlags) {c : Cursor} {p : Punctuator}
    (h : p.text.toList <+: c.rest) (hnumber : ∀ d : Char, d.isDigit = true → ¬['.', d] <+: c.rest) :
    scanAt flags c = scanPunctuator flags c := by
  obtain ⟨ch, cs, htext, hdigit, hname, hsharp, hdouble, hsingle, htick⟩ := p.head_text
  rw [htext] at h
  obtain ⟨rest, hrest⟩ := h
  have hpoint : ¬(ch = '.' ∧ (cs ++ rest).head?.any isDigit = true) := by
    rintro ⟨rfl, hany⟩
    cases hcs : cs ++ rest with
    | nil => simp [hcs] at hany
    | cons d ds =>
      rw [List.cons_append, hcs] at hrest
      rw [hcs] at hany
      exact hnumber d hany ⟨ds, hrest⟩
  have hfraction : (ch = '.' && (cs ++ rest).head?.any isDigit) = false := by
    simpa using hpoint
  rw [scanAt, ← hrest]
  simp only [List.cons_append, hdouble, hsingle, htick, hdigit, hname, hsharp, hfraction,
    decide_false, Bool.or_self, Bool.false_eq_true, if_false]

-- ---------------------------------------------------------------------------
-- The next token
-- ---------------------------------------------------------------------------

namespace Token

/-- A punctuator is written as it is, and no longer one is ahead where it begins, but for
`?.` before a digit. -/
theorem next_of_punct {t : Token} {p : Punctuator} (h : t.next.kind = .punct p) :
    t.next.text = p.text ∧ (QuestionFraction t.next.start.rest → p = .question) ∧
      ∀ q : Punctuator, q.text.toList <+: t.next.start.rest → p.text.length < q.text.length →
        q = .questionDot ∧ QuestionFraction t.next.start.rest := by
  rw [next_eq] at h ⊢
  obtain ⟨-, flags, heq⟩ := after_significant (.of_kind_eq h rfl)
  rw [heq] at h ⊢
  have hscan := scanAt_eq_of_kind h
  rw [hscan] at h
  obtain ⟨n, hread, hstop⟩ := scanPunctuator_of_kind h
  obtain ⟨hahead, hquestion, hlonger⟩ := Punctuator.longest_of_ahead? hread
  obtain ⟨rfl, -⟩ := Punctuator.ahead?_eq_some hread
  rw [text, (scanAt_liesAt flags _).start_eq, hscan, hstop]
  refine ⟨?_, hquestion, hlonger⟩
  obtain ⟨rest, hrest⟩ := hahead
  have hdrop : Cursor.drop p.text.length (gap t.stop).stop =
      ⟨(gap t.stop).stop.offset + utf8Len p.text.toList, rest⟩ := by
    rw [← Cursor.drop_append, String.length_toList, hrest]
  rw [hdrop, Text.textTo_eq hrest.symm rfl, String.ofList_toList]

/-- Where a punctuator is ahead behind spacing, the next token is one. -/
theorem exists_next_punct {t : Token} {passed ahead : List Char} {p : Punctuator}
    (hrest : t.stop.rest = passed ++ ahead) (hspacing : SpacingFrom t.stop.offset ahead passed)
    (hbare : Bare ahead) (hopens : ¬OpensComment ahead) (hahead : p.text.toList <+: ahead)
    (hnumber : ∀ d : Char, d.isDigit = true → ¬['.', d] <+: ahead) :
    ∃ q, t.next.kind = .punct q ∧ t.next.start.rest = ahead := by
  have hbegins : Begins ahead := by
    obtain ⟨c, cs, htext, -, -, hsharp, -⟩ := p.head_text
    obtain ⟨rest, rfl⟩ := hahead
    rw [htext] at hbare hopens ⊢
    exact hbare.begins hopens fun hc => absurd hc hsharp
  have heq := after_spacing hrest hspacing hbegins
  rw [scanAt_of_ahead _ hahead hnumber] at heq
  obtain ⟨q, n, hq⟩ := Punctuator.exists_ahead? hahead
  refine ⟨q, ?_, ?_⟩
  · rw [next_eq, heq, scanPunctuator, hq]
  · rw [next_eq, heq, scanPunctuator, hq]

end Token

/-- Punctuation is read by longest match. A token that is a punctuator has its text, and no
longer punctuator is ahead where it begins, except for `?.` before a digit, which is read
as a question mark. And behind any spacing, where a punctuator is the first text that is
not spacing, and neither a point before a digit nor a comment that is not closed, the next
token is a punctuator that begins there. -/
theorem next_punctuator (t : Token) :
    (∀ p : Punctuator, t.next.kind = .punct p →
      t.next.text = p.text ∧ (QuestionFraction t.next.start.rest → p = .question) ∧
        ∀ q : Punctuator, q.text.toList <+: t.next.start.rest → p.text.length < q.text.length →
          q = .questionDot ∧ QuestionFraction t.next.start.rest) ∧
    ∀ (passed ahead : List Char) (p : Punctuator), t.stop.rest = passed ++ ahead →
      SpacingFrom t.stop.offset ahead passed → Bare ahead → ¬OpensComment ahead →
      p.text.toList <+: ahead → (∀ d : Char, d.isDigit = true → ¬['.', d] <+: ahead) →
      ∃ q, t.next.kind = .punct q ∧ t.next.start.rest = ahead := by
  refine ⟨fun p hp => Token.next_of_punct hp, ?_⟩
  intro passed ahead p hrest hspacing hbare hopens hahead hnumber
  exact Token.exists_next_punct hrest hspacing hbare hopens hahead hnumber

/-- Of the four punctuators that are ahead behind a comment the longest one is read. -/
theorem next_punctuator_shift :
    let t := Token.initial "/**/>>>= 1"
    t.next.kind = .punct .shiftRightZeroAssign ∧ t.next.text = ">>>=" ∧
      ∃ q, t.next.kind = .punct q ∧ t.next.start.rest = ">>>= 1".toList := by
  intro t
  have hspacing : Spacing ">>>= 1".toList "/**/".toList :=
    @Spacing.blockComment _ [] [] (by simp) .nil
  have hbare : Bare ">>>= 1".toList := by
    rintro cs rest hcs hspacing
    cases hspacing with
    | nil => rfl
    | blank hc _ =>
      obtain ⟨rfl, -⟩ := List.cons.inj hcs
      exact absurd hc (by decide)
    | lineComment => exact absurd (List.cons.inj hcs).1 (by decide)
    | blockComment => exact absurd (List.cons.inj hcs).1 (by decide)
  have hopens : ¬OpensComment ">>>= 1".toList := by
    rintro ⟨body, hbody, -⟩
    exact absurd (List.cons.inj hbody).1 (by decide)
  have hnumber : ∀ d : Char, d.isDigit = true → ¬['.', d] <+: ">>>= 1".toList := by
    rintro d - htaken
    exact absurd (List.cons_prefix_cons.1 htaken).1 (by decide)
  have hkind : t.next.kind = .punct .shiftRightZeroAssign := by decide +kernel
  exact ⟨hkind, ((next_punctuator t).1 _ hkind).1, (next_punctuator t).2 "/**/".toList
    ">>>= 1".toList .greater rfl (.inl hspacing) hbare hopens (by decide) hnumber⟩

end ModuleBundler
