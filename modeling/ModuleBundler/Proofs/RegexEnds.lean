import Mathlib.Data.Bool.AllAny
import ModuleBundler.Proofs.Faults
import ModuleBundler.Proofs.Punctuation

/-!
# ModuleBundler — where regular expressions end

A slash is read anew as a regular expression by looking for the slash that closes it, with
what was passed in mind: whether it is inside of a class in brackets, and whether the last
character was a backslash that takes the next one along. What closes it can be told without
that: it is the first slash on the line with no odd number of backslashes in front and with
no bracket in front that opens a class which is still open.

* `Escaped`, `InClass` — what stands in front of a character of a body.
* `Closes`, `ClosesFirst` — a slash that closes a body, and the first one.
* `flags_iff` — what the reader has in mind is what stands in front.
* `regexBody_of_closesFirst`, `exists_closesFirst` — the reader finds the first one.
* `Token.Reached` — the tokens at which a scanner of a text may be.
* `asRegex_exact` — a slash that is read anew.
-/

namespace ModuleBundler

open Text (Cursor isLineBreak isNamePart)
open String (utf8Len)

-- ---------------------------------------------------------------------------
-- Bodies
-- ---------------------------------------------------------------------------

/-- What comes next is escaped: an odd number of backslashes is in front of it. -/
def Escaped (front : List Char) : Prop := (front.reverse.takeWhile (· = '\\')).length % 2 = 1

/-- What comes next is in a class: a bracket has opened one, and no other bracket has closed
it since. -/
def InClass (front : List Char) : Prop :=
  ∃ before inside, front = before ++ '[' :: inside ∧ ¬Escaped before ∧
    ∀ a b, inside = a ++ ']' :: b → Escaped (before ++ '[' :: a)

/-- A slash of the line, behind some characters of a body and in front of others, that is
neither escaped nor in a class. -/
structure Closes (body front behind : List Char) : Prop where
  body_eq : body = front ++ '/' :: behind
  onLine : ∀ c ∈ front, isLineBreak c = false
  bare : ¬Escaped front
  outside : ¬InClass front

/-- The first such slash. -/
def ClosesFirst (body front behind : List Char) : Prop :=
  Closes body front behind ∧ ∀ a b, Closes body a b → front.length ≤ a.length

section

variable {body front behind cs : List Char} {c : Char}

theorem escaped_concat : Escaped (front ++ [c]) ↔ c = '\\' ∧ ¬Escaped front := by
  unfold Escaped
  rw [List.reverse_append, List.reverse_singleton, List.singleton_append]
  by_cases hc : c = '\\'
  · subst hc
    rw [List.takeWhile_cons_of_pos (by decide), List.length_cons, eq_self, true_and]
    omega
  · rw [List.takeWhile_cons_of_neg (by simpa using hc)]
    simp [hc]

theorem inClass_concat : InClass (front ++ [c]) ↔
    (c = '[' ∧ ¬Escaped front) ∨ (InClass front ∧ (c = ']' → Escaped front)) := by
  constructor
  · rintro ⟨before, inside, heq, hbefore, hinside⟩
    rcases List.eq_nil_or_concat' inside with rfl | ⟨inside, last, rfl⟩
    · obtain ⟨rfl, hc⟩ := List.append_inj' heq rfl
      exact .inl ⟨(List.cons.inj hc).1, hbefore⟩
    · rw [← List.cons_append, ← List.append_assoc] at heq
      obtain ⟨rfl, hc⟩ := List.append_inj' heq rfl
      obtain rfl := (List.cons.inj hc).1
      refine .inr ⟨⟨before, inside, rfl, hbefore, fun a b hab => ?_⟩, fun hclose => ?_⟩
      · exact hinside a (b ++ [c]) (by rw [hab]; simp)
      · exact hinside inside [] (by rw [hclose])
  · rintro (⟨rfl, hfront⟩ | ⟨⟨before, inside, rfl, hbefore, hinside⟩, hclose⟩)
    · exact ⟨front, [], rfl, hfront, fun a b hab => absurd hab (by simp)⟩
    · refine ⟨before, inside ++ [c], by simp, hbefore, fun a b hab => ?_⟩
      rcases List.eq_nil_or_concat' b with rfl | ⟨b, last, rfl⟩
      · obtain ⟨rfl, hc⟩ := List.append_inj' hab rfl
        exact hclose (List.cons.inj hc).1
      · rw [← List.cons_append, ← List.append_assoc] at hab
        exact hinside a b (List.append_inj' hab rfl).1

-- ---------------------------------------------------------------------------
-- Readers
-- ---------------------------------------------------------------------------

/-- What the reader of a body has in mind behind a character: whether it is in a class, and
whether the next character is escaped. -/
def regexStep (flags : Bool × Bool) (c : Char) : Bool × Bool :=
  ((c = '[' && !flags.2) || (flags.1 && (c ≠ ']' || flags.2)), c = '\\' && !flags.2)

/-- What the reader has in mind is what stands in front. -/
theorem flags_iff (front : List Char) :
    ((front.foldl regexStep (false, false)).1 = true ↔ InClass front) ∧
      ((front.foldl regexStep (false, false)).2 = true ↔ Escaped front) := by
  induction front using List.reverseRecOn with
  | nil =>
    refine ⟨⟨nofun, ?_⟩, ⟨nofun, nofun⟩⟩
    rintro ⟨before, inside, heq, -⟩
    simp at heq
  | append_singleton front c ih =>
    rw [List.foldl_append, List.foldl_cons, List.foldl_nil, inClass_concat, escaped_concat, ← ih.1,
      ← ih.2]
    simp only [regexStep, Bool.or_eq_true, Bool.and_eq_true, Bool.not_eq_true', decide_eq_true_eq,
      Bool.not_eq_true, ne_eq, ← imp_iff_not_or, and_self]

theorem flags_eq_iff (front : List Char) :
    front.foldl regexStep (false, false) = (false, false) ↔ ¬InClass front ∧ ¬Escaped front := by
  obtain ⟨hclass, hescaped⟩ := flags_iff front
  rw [← hclass, ← hescaped, Bool.not_eq_true, Bool.not_eq_true]
  exact Prod.ext_iff

namespace Token

/-- The reader goes on behind a character of the line, unless it closes the body. -/
theorem regexBody_cons {flags : Bool × Bool} (offset : Nat) (hline : isLineBreak c = false)
    (hgo : c = '/' → flags ≠ (false, false)) :
    regexBody flags.1 flags.2 offset (c :: cs) =
      regexBody (regexStep flags c).1 (regexStep flags c).2 (offset + c.utf8Size) cs := by
  obtain ⟨inClass, escaped⟩ := flags
  conv_lhs => unfold regexBody
  rw [if_neg (by simp [hline])]
  cases escaped with
  | true => simp [regexStep]
  | false =>
    rw [if_neg (by simp)]
    split
    · simp [regexStep]
    · simp [regexStep]
    · simp [regexStep]
    · cases inClass with
      | true => simp [regexStep]
      | false => exact absurd rfl (hgo rfl)
    · case _ hescape hopen hclose _ =>
      have hother : c ≠ '\\' ∧ c ≠ '[' ∧ c ≠ ']' := ⟨hescape, hopen, hclose⟩
      simp [regexStep, hother]

/-- The reader does not go on over the end of the line. -/
theorem regexBody_break (inClass escaped : Bool) (offset : Nat) (hline : isLineBreak c = true) :
    regexBody inClass escaped offset (c :: cs) = .error ⟨offset, c :: cs⟩ := by
  unfold regexBody
  exact if_pos hline

/-- Where the first slash that is not passed over closes the body, the reader stops behind it. -/
theorem regexBody_of_first {flags : Bool × Bool} (offset : Nat)
    (hline : ∀ c ∈ front, isLineBreak c = false)
    (hcloses : front.foldl regexStep flags = (false, false))
    (hfirst : ∀ a b, front = a ++ '/' :: b → a.foldl regexStep flags ≠ (false, false)) :
    regexBody flags.1 flags.2 offset (front ++ '/' :: behind) =
      .ok ⟨offset + utf8Len front + 1, behind⟩ := by
  induction front generalizing flags offset with
  | nil =>
    obtain rfl : flags = (false, false) := hcloses
    rfl
  | cons c cs ih =>
    obtain ⟨hc, hcs⟩ := List.forall_mem_cons.1 hline
    have hgo : c = '/' → flags ≠ (false, false) := fun hslash => hfirst [] cs (by rw [hslash]; rfl)
    have hlen : offset + utf8Len (c :: cs) + 1 = offset + c.utf8Size + utf8Len cs + 1 := by
      rw [String.utf8Len_cons]
      omega
    rw [List.cons_append, regexBody_cons offset hc hgo, hlen]
    exact ih _ hcs hcloses fun a b hab => hfirst (c :: a) b (by rw [hab]; rfl)

/-- Where the reader finds the end of a body, it comes to a slash with nothing in mind. -/
theorem slash_of_regexBody {flags : Bool × Bool} {offset : Nat} {stop : Cursor}
    (h : regexBody flags.1 flags.2 offset body = .ok stop) :
    ∃ front behind, body = front ++ '/' :: behind ∧ (∀ c ∈ front, isLineBreak c = false) ∧
      front.foldl regexStep flags = (false, false) := by
  induction body generalizing flags offset with
  | nil => cases h
  | cons c cs ih =>
    cases hline : isLineBreak c with
    | true =>
      rw [regexBody_break _ _ _ hline] at h
      cases h
    | false =>
      by_cases hgo : c = '/' → flags ≠ (false, false)
      · rw [regexBody_cons offset hline hgo] at h
        obtain ⟨front, behind, rfl, hfront, hcloses⟩ := ih h
        exact ⟨c :: front, behind, rfl, List.forall_mem_cons.2 ⟨hline, hfront⟩, hcloses⟩
      · obtain ⟨rfl, hflags⟩ := Classical.not_imp.1 hgo
        exact ⟨[], cs, rfl, nofun, not_not.1 hflags⟩

/-- Closed or not, a body is read on its line. -/
theorem regexBody_onLine (flags : Bool × Bool) (offset : Nat) (body : List Char) :
    ∃ passed, body = passed ++ (regexStop (regexBody flags.1 flags.2 offset body)).rest ∧
      ∀ c ∈ passed, isLineBreak c = false := by
  induction body generalizing flags offset with
  | nil => exact ⟨[], rfl, nofun⟩
  | cons c cs ih =>
    cases hline : isLineBreak c with
    | true =>
      rw [regexBody_break _ _ _ hline]
      exact ⟨[], rfl, nofun⟩
    | false =>
      by_cases hgo : c = '/' → flags ≠ (false, false)
      · rw [regexBody_cons offset hline hgo]
        obtain ⟨passed, heq, hpassed⟩ := ih (regexStep flags c) (offset + c.utf8Size)
        refine ⟨c :: passed, ?_, List.forall_mem_cons.2 ⟨hline, hpassed⟩⟩
        rw [List.cons_append, ← heq]
      · obtain ⟨rfl, hflags⟩ := Classical.not_imp.1 hgo
        obtain rfl := not_not.1 hflags
        exact ⟨['/'], rfl, List.forall_mem_singleton.2 hline⟩

-- ---------------------------------------------------------------------------
-- The first slash
-- ---------------------------------------------------------------------------

/-- What closes a body closes it where the reader has nothing in mind. -/
theorem closes_iff : Closes body front behind ↔
    body = front ++ '/' :: behind ∧ (∀ c ∈ front, isLineBreak c = false) ∧
      front.foldl regexStep (false, false) = (false, false) := by
  rw [flags_eq_iff]
  constructor
  · intro h
    exact ⟨h.body_eq, h.onLine, h.outside, h.bare⟩
  · rintro ⟨heq, hline, houtside, hbare⟩
    exact ⟨heq, hline, hbare, houtside⟩

/-- The reader of a body stops behind the first slash that closes it. -/
theorem regexBody_of_closesFirst (offset : Nat) (h : ClosesFirst body front behind) :
    regexBody false false offset body = .ok ⟨offset + utf8Len front + 1, behind⟩ := by
  obtain ⟨hcloses, hshortest⟩ := h
  obtain ⟨rfl, hline, hflags⟩ := closes_iff.1 hcloses
  refine @regexBody_of_first _ _ (false, false) offset hline hflags fun a b hab hclosed => ?_
  have hearlier : Closes (front ++ '/' :: behind) a (b ++ '/' :: behind) := by
    refine closes_iff.2 ⟨by rw [hab]; simp, fun c hc => hline c ?_, hclosed⟩
    rw [hab]
    exact List.mem_append_left _ hc
  have hle := hshortest _ _ hearlier
  rw [hab, List.length_append, List.length_cons] at hle
  omega

/-- Where some slash closes a body, there is a first one. -/
theorem exists_closesFirst (h : Closes body front behind) :
    ∃ front behind, ClosesFirst body front behind := by
  induction hn : front.length using Nat.strong_induction_on generalizing front behind with
  | _ n ih =>
    by_cases hfirst : ∀ a b, Closes body a b → front.length ≤ a.length
    · exact ⟨front, behind, h, hfirst⟩
    · push Not at hfirst
      obtain ⟨a, b, hab, hlt⟩ := hfirst
      exact ih a.length (by omega) hab rfl

/-- The reader finds an end exactly where there is one. -/
theorem closes_of_regexBody {offset : Nat} {stop : Cursor}
    (h : regexBody false false offset body = .ok stop) :
    ∃ front behind, Closes body front behind := by
  obtain ⟨front, behind, hbody, hline, hcloses⟩ :=
    @slash_of_regexBody body (false, false) offset stop h
  exact ⟨front, behind, closes_iff.2 ⟨hbody, hline, hcloses⟩⟩

end Token

end

-- ---------------------------------------------------------------------------
-- Scanners
-- ---------------------------------------------------------------------------

/-- No name goes on over the end of a line. -/
theorem isNamePart_of_isLineBreak {c : Char} (h : isLineBreak c = true) : isNamePart c = false := by
  simp only [isLineBreak, Bool.or_eq_true, decide_eq_true_eq] at h
  rcases h with ((rfl | rfl) | rfl) | rfl <;> decide +kernel

namespace Token

/-- The tokens at which a scanner of a text may be, whatever it is asked for: the next token, the
current one anew, or to pass an interpreter line. Going back leads to one of them, too. -/
inductive Reached (text : String) : Token → Prop
  | initial : Reached text (.initial text)
  | next {t : Token} : Reached text t → Reached text t.next
  | asRegex {t : Token} : Reached text t → Reached text t.asRegex
  | asTemplate {t : Token} : Reached text t → Reached text t.asTemplate
  | interpreterLine {t : Token} : Reached text t →
    Reached text { t with stop := skipInterpreterLine t.stop }

section

variable {text : String} {t : Token} {body front behind : List Char}

/-- A token lies on a text, and if it is a punctuator then the text goes on with it there. -/
structure OnText (text : String) (t : Token) : Prop where
  start : (Cursor.start text).Before t.start
  stop : t.start.Before t.stop
  ahead : ∀ p, t.kind = .punct p → p.text.toList <+: t.start.rest

theorem OnText.next (h : t.OnText text) : t.next.OnText text := by
  rw [next_eq]
  have hbefore := after_start_before t.stop
  refine ⟨(h.start.trans h.stop).trans (before_after_start _), hbefore, fun p hp => ?_⟩
  obtain ⟨m, hm, hoffset⟩ := hbefore.exists_passed
  have htext := (next_of_punct (t := t) hp).1
  rw [next_eq, Token.text, Text.textTo_eq hm hoffset] at htext
  rw [hm, ← htext, String.toList_ofList]
  exact List.prefix_append _ _

/-- Reading a token anew does not move it. -/
theorem OnText.anew {u : Token} (h : t.OnText text) (hstart : u.start = t.start)
    (hstop : t.start.Before u.stop) (hkind : u = t ∨ ∀ p, u.kind ≠ .punct p) : u.OnText text := by
  refine ⟨?_, ?_, fun p hp => ?_⟩
  · rw [hstart]
    exact h.start
  · rw [hstart]
    exact hstop
  · rcases hkind with rfl | hnone
    · exact h.ahead p hp
    · exact absurd hp (hnone p)

theorem Reached.onText (h : t.Reached text) : t.OnText text := by
  induction h with
  | initial => exact ⟨.refl _, .refl _, nofun⟩
  | next _ ih => exact ih.next
  | asRegex _ ih => exact ih.anew (asRegex_start _) (asRegex_before ih.stop).1 (asRegex_eq_or _)
  | asTemplate _ ih =>
    exact ih.anew (asTemplate_start _) (asTemplate_before ih.stop).1 (asTemplate_eq_or _)
  | interpreterLine _ ih =>
    exact ⟨ih.start, ih.stop.trans (skipInterpreterLine_before _), ih.ahead⟩

/-- At a slash, a scanner is in front of one. -/
theorem Reached.exists_body (h : t.Reached text)
    (hk : t.kind = .punct .slash ∨ t.kind = .punct .slashAssign) :
    ∃ before body, text.toList = before ++ '/' :: body ∧
      t.start = ⟨utf8Len before, '/' :: body⟩ := by
  obtain ⟨hstart, -, hahead⟩ := h.onText
  obtain ⟨before, hbefore, hoffset⟩ := hstart.exists_passed
  obtain ⟨body, hbody⟩ : ∃ body, t.start.rest = '/' :: body := by
    rcases hk with hk | hk
    · obtain ⟨body, hbody⟩ := hahead _ hk
      exact ⟨body, hbody.symm⟩
    · obtain ⟨body, hbody⟩ := hahead _ hk
      exact ⟨'=' :: body, hbody.symm⟩
  refine ⟨before, body, ?_, ?_⟩
  · rw [← hbody]
    exact hbefore
  · have hzero : t.start.offset = utf8Len before := by
      rw [hoffset]
      exact Nat.zero_add _
    rw [← hzero, ← hbody]

/-- How a slash is read anew if the reader of its body finds the end. -/
theorem asRegex_of_ok {slash : Cursor}
    (hk : t.kind = .punct .slash ∨ t.kind = .punct .slashAssign)
    (hrest : t.start.rest = '/' :: body)
    (hread : regexBody false false (t.start.offset + 1) body = .ok slash) :
    t.asRegex = { t with
      kind := .regex, stop := slash.skipWhile isNamePart
      value := t.start.textTo (slash.skipWhile isNamePart) } := by
  have hadvance : t.start.advance = ⟨t.start.offset + 1, body⟩ := by
    simp only [Cursor.advance, hrest]
    rfl
  unfold asRegex
  rw [if_pos (by simpa using hk)]
  simp only [hadvance, hread]

/-- How a slash is read anew if the reader of its body does not find the end. -/
theorem asRegex_of_error {stop : Cursor}
    (hk : t.kind = .punct .slash ∨ t.kind = .punct .slashAssign)
    (hrest : t.start.rest = '/' :: body)
    (hread : regexBody false false (t.start.offset + 1) body = .error stop) :
    t.asRegex = { t with
      kind := .unknown, stop := stop, flags := { t.flags with unterminated := true }
      fault := some .unclosedRegex } := by
  have hadvance : t.start.advance = ⟨t.start.offset + 1, body⟩ := by
    simp only [Cursor.advance, hrest]
    rfl
  unfold asRegex
  rw [if_pos (by simpa using hk)]
  simp only [hadvance, hread]

/-- A slash is read anew up to its first closing slash, with the name that follows. -/
theorem asRegex_of_closesFirst (hk : t.kind = .punct .slash ∨ t.kind = .punct .slashAssign)
    (hrest : t.start.rest = '/' :: body) (h : ClosesFirst body front behind) :
    t.asRegex.kind = .regex ∧ t.asRegex.stop =
        ⟨t.start.offset + utf8Len ('/' :: front ++ '/' :: behind.takeWhile isNamePart),
          behind.dropWhile isNamePart⟩ ∧
      t.asRegex.text = String.ofList ('/' :: front ++ '/' :: behind.takeWhile isNamePart) ∧
      t.asRegex.value = t.asRegex.text := by
  have hstop : Cursor.skipWhile isNamePart ⟨t.start.offset + 1 + utf8Len front + 1, behind⟩ =
      ⟨t.start.offset + utf8Len ('/' :: front ++ '/' :: behind.takeWhile isNamePart),
        behind.dropWhile isNamePart⟩ := by
    have hslash : '/'.utf8Size = 1 := rfl
    rw [Cursor.skipWhile, skipWhile_go_eq, String.utf8Len_append, String.utf8Len_cons,
      String.utf8Len_cons, hslash]
    congr 1
    dsimp only
    omega
  have heq := asRegex_of_ok hk hrest (regexBody_of_closesFirst _ h)
  rw [hstop] at heq
  have htext : t.asRegex.text =
      String.ofList ('/' :: front ++ '/' :: behind.takeWhile isNamePart) := by
    rw [heq]
    refine Text.textTo_eq ?_ rfl
    show t.start.rest = _ ++ behind.dropWhile isNamePart
    rw [hrest, h.1.body_eq, List.append_assoc, List.cons_append, List.cons_append,
      List.takeWhile_append_dropWhile]
  refine ⟨by rw [heq], by rw [heq], htext, ?_⟩
  rw [heq]
  rfl

/-- Without a closing slash the line is not a regular expression. -/
theorem asRegex_of_not_closes (hk : t.kind = .punct .slash ∨ t.kind = .punct .slashAssign)
    (hrest : t.start.rest = '/' :: body) (h : ∀ front behind, ¬Closes body front behind) :
    t.asRegex.kind = .unknown ∧ t.asRegex.flags.unterminated = true ∧
      t.asRegex.fault = some .unclosedRegex ∧
      ∀ c ∈ t.asRegex.text.toList, isLineBreak c = false := by
  have hbefore := regexBody_before false false (t.start.offset + 1) body
  obtain ⟨passed, hpassed, hline⟩ := regexBody_onLine (false, false) (t.start.offset + 1) body
  cases hread : regexBody false false (t.start.offset + 1) body with
  | ok stop =>
    obtain ⟨front, behind, hcloses⟩ := closes_of_regexBody hread
    exact absurd hcloses (h front behind)
  | error stop =>
    have heq := asRegex_of_error hk hrest hread
    rw [hread] at hbefore
    change body = passed ++ (regexStop (regexBody false false _ body)).rest at hpassed
    rw [hread] at hpassed
    obtain ⟨m, hm, hoffset⟩ := hbefore.exists_passed
    obtain rfl : m = passed := List.append_cancel_right (hm.symm.trans hpassed)
    have htext : t.asRegex.text = String.ofList ('/' :: m) := by
      rw [heq]
      refine Text.textTo_eq ?_ ?_
      · rw [hrest, hpassed]
        rfl
      · change stop.offset = t.start.offset + 1 + utf8Len m at hoffset
        show stop.offset = t.start.offset + utf8Len ('/' :: m)
        rw [hoffset, String.utf8Len_cons, Nat.add_assoc, Nat.add_comm 1]
        rfl
    refine ⟨by rw [heq], by rw [heq], by rw [heq], ?_⟩
    rw [htext, String.toList_ofList]
    exact List.forall_mem_cons.2 ⟨by decide, hline⟩

end

end Token

/-- A slash that a scanner is asked to read anew becomes a regular expression if a slash that
is neither escaped nor in a class follows on its line. It then reaches over the first such slash
and the name behind it. If there is none it becomes a fault. Either way it ends on its line. -/
theorem asRegex_exact {text : String} {t : Token} (ht : t.Reached text)
    (hk : t.kind = .punct .slash ∨ t.kind = .punct .slashAssign) :
    ∃ before body, text.toList = before ++ '/' :: body ∧ t.start = ⟨utf8Len before, '/' :: body⟩ ∧
      t.asRegex.start = t.start ∧
      (t.asRegex.kind = .regex ↔ ∃ front behind, Closes body front behind) ∧
      (∀ front behind, ClosesFirst body front behind →
        t.asRegex.stop =
            ⟨utf8Len before + utf8Len ('/' :: front ++ '/' :: behind.takeWhile isNamePart),
              behind.dropWhile isNamePart⟩ ∧
          t.asRegex.text = String.ofList ('/' :: front ++ '/' :: behind.takeWhile isNamePart) ∧
          t.asRegex.value = t.asRegex.text) ∧
      ((¬∃ front behind, Closes body front behind) → t.asRegex.kind = .unknown ∧
        t.asRegex.flags.unterminated = true ∧ t.asRegex.fault = some .unclosedRegex) ∧
      ∀ c ∈ t.asRegex.text.toList, isLineBreak c = false := by
  obtain ⟨before, body, htext, hstart⟩ := ht.exists_body hk
  have hrest : t.start.rest = '/' :: body := by rw [hstart]
  have hoffset : t.start.offset = utf8Len before := by rw [hstart]
  refine ⟨before, body, htext, hstart, Token.asRegex_start t, ?_, ?_, ?_, ?_⟩
  · constructor
    · intro hregex
      by_contra hnone
      have hfault := (Token.asRegex_of_not_closes hk hrest fun a b hab => hnone ⟨a, b, hab⟩).1
      rw [hregex] at hfault
      cases hfault
    · rintro ⟨front, behind, hcloses⟩
      obtain ⟨front, behind, hfirst⟩ := Token.exists_closesFirst hcloses
      exact (Token.asRegex_of_closesFirst hk hrest hfirst).1
  · intro front behind hfirst
    rw [← hoffset]
    exact (Token.asRegex_of_closesFirst hk hrest hfirst).2
  · intro hnone
    have hfault := Token.asRegex_of_not_closes hk hrest fun a b hab => hnone ⟨a, b, hab⟩
    exact ⟨hfault.1, hfault.2.1, hfault.2.2.1⟩
  · by_cases hcloses : ∃ front behind, Closes body front behind
    · obtain ⟨front, behind, hcloses⟩ := hcloses
      obtain ⟨front, behind, hfirst⟩ := Token.exists_closesFirst hcloses
      rw [(Token.asRegex_of_closesFirst hk hrest hfirst).2.2.1, String.toList_ofList]
      intro c hc
      have hname : ∀ d ∈ behind.takeWhile isNamePart, isLineBreak d = false := by
        intro d hd
        have hpart := List.all_eq_true.1 List.all_takeWhile d hd
        exact Bool.eq_false_iff.2 fun hbreak => by simp [isNamePart_of_isLineBreak hbreak] at hpart
      rcases List.mem_append.1 hc with hc | hc
      · exact List.forall_mem_cons.2 ⟨by decide, hfirst.1.onLine⟩ c hc
      · exact List.forall_mem_cons.2 ⟨by decide, hname⟩ c hc
    · exact (Token.asRegex_of_not_closes hk hrest fun a b hab => hcloses ⟨a, b, hab⟩).2.2.2

/-- A slash in a class and an escaped one do not end a regular expression. -/
theorem asRegex_exact_slashes :
    (Token.initial "/[/]\\//gi.x").next.kind = .punct .slash ∧
      (Token.initial "/[/]\\//gi.x").next.asRegex.kind = .regex ∧
      (Token.initial "/[/]\\//gi.x").next.asRegex.text = "/[/]\\//gi" := by
  have hslash : (Token.initial "/[/]\\//gi.x").next.kind = .punct .slash := by decide +kernel
  have hrest : (Token.initial "/[/]\\//gi.x").next.start.rest = '/' :: "[/]\\//gi.x".toList := by
    decide +kernel
  obtain ⟨before, body, -, hstart, -, hregex, -⟩ := asRegex_exact (.next .initial) (.inl hslash)
  rw [hstart] at hrest
  obtain rfl := (List.cons.inj hrest).2
  have hline : ∀ c ∈ "[/]\\/".toList, isLineBreak c = false := by
    rw [← List.all_iff_forall_prop]
    decide
  have hcloses : Closes "[/]\\//gi.x".toList "[/]\\/".toList "gi.x".toList :=
    Token.closes_iff.2 ⟨rfl, hline, by decide⟩
  exact ⟨hslash, hregex.2 ⟨_, _, hcloses⟩, by decide +kernel⟩

end ModuleBundler
