import ModuleBundler.Proofs.Frames

/-!
# ModuleBundler — looking ahead in a framed text

The grammar looks at tokens ahead of the current one: at the next one, and for an arrow behind a
group in parentheses at all tokens of the group. In a framed text it finds there what it finds in
the text. Where the text ends the frame is ahead, but no phrase goes on with what stands there.

* `Token.next_within_or` — what is asked of the next token is asked of a token of the text.
* `Token.groupStep` … `Token.isGroupBeforeArrow_within` — groups, token after token.
* `Token.beginsArrowFunction_within` — where an arrow function begins.
-/

namespace ModuleBundler

open Text
open String (utf8Len)

variable {F : Frame}

namespace Token

variable {c : Cursor} {t : Token}

-- ---------------------------------------------------------------------------
-- The next token
-- ---------------------------------------------------------------------------

theorem next_within (hpos : 0 < t.stop.offset) (h : t.next.Significant) :
    (t.within F).next = t.next.within F :=
  after_within (skipInterpreterLine_of_pos hpos) h

/-- What is asked of the next token is asked of a token of the text. -/
theorem next_within_or (hpos : 0 < t.stop.offset) {q : Token → Bool}
    (hq : ∀ t, q (t.within F) = q t) (hsig : ∀ t, q t = true → t.Significant)
    (hassign : ∀ t, t.kind = .punct .assign → q t = false) :
    q (t.within F).next = q t.next := by
  by_cases h : t.next.Significant
  · rw [next_within hpos h, hq]
  · rw [show q t.next = false from Bool.eq_false_iff.2 fun hq => h (hsig _ hq)]
    rcases after_behind (skipInterpreterLine_of_pos hpos) h with hnone | hequals
    · exact Bool.eq_false_iff.2 fun hq => hnone F (hsig _ hq)
    · exact hassign _ (hequals F).1

theorem continuesWith_within (hpos : 0 < t.stop.offset) {k : TokenKind}
    (hsig : k.isSignificant = true) (hassign : k ≠ .punct .assign) :
    (t.within F).continuesWith k = t.continuesWith k := by
  refine next_within_or hpos (fun _ => rfl) (q := fun u => u.kind = k && !u.afterLineBreak)
    (fun u hu => ?_) fun u hu => ?_
  · rw [Bool.and_eq_true, decide_eq_true_eq] at hu
    exact .of_kind_eq hu.1 hsig
  · simp [hu, hassign.symm]

theorem next_kind_within (hpos : 0 < t.stop.offset) {k : TokenKind}
    (hsig : k.isSignificant = true) (hassign : k ≠ .punct .assign) :
    (t.within F).next.kind = k ↔ t.next.kind = k := by
  have h := next_within_or hpos (fun _ => rfl) (F := F) (q := fun u => u.kind = k)
    (fun u hu => .of_kind_eq (of_decide_eq_true hu) hsig)
    fun u hu => decide_eq_false fun hk => hassign (hk.symm.trans hu)
  simpa using h

theorem next_beginsKey_within (hpos : 0 < t.stop.offset) :
    (t.within F).next.beginsKey = t.next.beginsKey := by
  refine next_within_or hpos (fun _ => rfl) (fun u hu => ?_) fun u hu => ?_
  · refine .of_kind (fun k => k.isNameOrKeyword || k = .string || k = .number || k = .bigInt ||
      k = .punct .openBracket || k = .privateName) hu rfl rfl
  · simp [beginsKey, hu, TokenKind.isNameOrKeyword]

theorem beginsLetDeclaration_within (hpos : 0 < t.stop.offset) :
    (t.within F).beginsLetDeclaration = t.beginsLetDeclaration := by
  have hname : (t.within F).next.isBindingName = t.next.isBindingName := by
    refine next_within_or hpos (fun _ => rfl) (fun u hu => .of_isBindingName hu) fun u hu => ?_
    simp [isBindingName, hu, TokenKind.isContextual]
  simp only [beginsLetDeclaration, hname, next_kind_within hpos rfl
    (show TokenKind.punct .openBracket ≠ .punct .assign by decide), next_kind_within hpos rfl
    (show TokenKind.punct .openBrace ≠ .punct .assign by decide)]

theorem beginsImportExpression_within (hpos : 0 < t.stop.offset) :
    (t.within F).beginsImportExpression = t.beginsImportExpression := by
  simp only [beginsImportExpression, next_kind_within hpos rfl
    (show TokenKind.punct .openParen ≠ .punct .assign by decide), next_kind_within hpos rfl
    (show TokenKind.punct .dot ≠ .punct .assign by decide)]

theorem qualifiesMember_within (hpos : 0 < t.stop.offset) :
    (t.within F).qualifiesMember = t.qualifiesMember := by
  refine next_within_or hpos (fun _ => rfl)
    (q := fun u => !u.afterLineBreak && (u.beginsKey || u.kind = .punct .star))
    (fun u hu => ?_) fun u hu => ?_
  · rw [Bool.and_eq_true, Bool.or_eq_true, decide_eq_true_eq] at hu
    rcases hu.2 with hkey | hstar
    · exact .of_kind (fun k => k.isNameOrKeyword || k = .string || k = .number || k = .bigInt ||
        k = .punct .openBracket || k = .privateName) hkey rfl rfl
    · exact .of_kind_eq hstar rfl
  · simp [beginsKey, hu, TokenKind.isNameOrKeyword]

-- ---------------------------------------------------------------------------
-- Groups in parentheses
-- ---------------------------------------------------------------------------

/-- A token that is not empty. -/
structure Proper (t : Token) : Prop where
  before : t.start.Before t.stop
  lt : t.start.offset < t.stop.offset

theorem Proper.rest_ne_nil (h : t.Proper) : t.start.rest ≠ [] :=
  h.before.rest_ne_nil h.lt

theorem Proper.pos (h : t.Proper) : 0 < t.stop.offset :=
  Nat.zero_lt_of_lt h.lt

theorem after_proper (h : (after c).Significant) : (after c).Proper :=
  ⟨after_start_before c, after_lt h⟩

theorem Proper.asRegex (h : t.Proper) : t.asRegex.Proper := by
  obtain ⟨hbefore, hlt⟩ := asRegex_before h.before
  rw [← asRegex_start] at hbefore hlt
  exact ⟨hbefore, hlt (by rw [asRegex_start]; exact h.lt)⟩

theorem Proper.asTemplate (h : t.Proper) : t.asTemplate.Proper := by
  obtain ⟨hbefore, hlt⟩ := asTemplate_before h.before
  rw [← asTemplate_start] at hbefore hlt
  exact ⟨hbefore, hlt (by rw [asTemplate_start]; exact h.lt)⟩

/-- The same step through a group in a text and in the framed text. -/
inductive StepFramed (F : Frame) (t : Token) :
    (List Closer × Token) ⊕ Option Token → (List Closer × Token) ⊕ Option Token → Prop
  | goes (gs : List Closer) (v : Token) (hv : v = t ∨ v = t.asTemplate) (hsig : v.Significant) :
    StepFramed F t (.inl (gs, v.next)) (.inl (gs, (v.within F).next))
  | found : StepFramed F t (.inr (some t)) (.inr (some (t.within F)))
  | fails : StepFramed F t (.inr none) (.inr none)

theorem groupStep_framed (ht : t.Proper) (gs : List Closer) :
    StepFramed F t (groupStep gs t) (groupStep gs (t.within F)) := by
  have hframed : Framed F t.asTemplate (t.within F).asTemplate := asTemplate_framed ht.rest_ne_nil
  have hpiece : (t.within F).asTemplate.kind = t.asTemplate.kind := by
    by_cases hunknown : t.asTemplate.kind = .unknown
    · rw [hframed.2 hunknown, hunknown]
    · rw [hframed.1 hunknown, kind_within]
  have hgoes : ∀ {k gs}, t.kind = k → k.isSignificant = true →
      StepFramed F t (.inl (gs, t.next)) (.inl (gs, (t.within F).next)) :=
    fun hk hsig => .goes _ t (.inl rfl) (.of_kind_eq hk hsig)
  unfold groupStep
  rw [kind_within, hpiece]
  generalize hk : t.kind = k
  split
  case h_5 =>
    split
    · exact .found
    · exact hgoes hk rfl
  case h_6 =>
    split
    · exact .found
    · exact hgoes hk rfl
  case h_8 =>
    generalize hpiece : t.asTemplate.kind = piece
    split
    · rw [hframed.1 (by simp [hpiece])]
      exact .goes _ _ (.inr rfl) (.of_kind_eq hpiece rfl)
    · rw [hframed.1 (by simp [hpiece])]
      exact .goes _ _ (.inr rfl) (.of_kind_eq hpiece rfl)
    · exact .fails
  case h_14 hend hunknown _ _ _ _ =>
    exact .goes _ t (.inl rfl) ⟨fun h => hunknown (hk ▸ h), fun h => hend (hk ▸ h)⟩
  all_goals first | exact hgoes hk rfl | exact .fails

/-- Whether an arrow follows a group, if its end was found. -/
def ArrowFollows (found : Option Token) : Bool := found.any (·.continuesWith (.punct .arrow))

theorem isGroupBeforeArrow_eq (t : Token) (bound : Nat) :
    t.isGroupBeforeArrow bound = ArrowFollows (skipGroup bound [] t) := by
  unfold isGroupBeforeArrow
  split <;> simp [*, ArrowFollows]

theorem groupStep_of_not_significant (h : ¬t.Significant) (gs : List Closer) :
    groupStep gs t = .inr none := by
  rcases not_significant_iff.1 h with hk | hk <;> simp [groupStep, hk]

/-- A token that is no bracket is passed. -/
theorem arrowFollows_of_step {gs : List Closer}
    (hstep : groupStep gs t = .inl (gs, t.next))
    (h : ∀ n, ArrowFollows (skipGroup n gs (after t.stop)) = false) (n : Nat) :
    ArrowFollows (skipGroup n gs t) = false := by
  match n with
  | 0 => rfl
  | n + 1 =>
    rw [skipGroup_succ, hstep]
    exact h n

theorem arrowFollows_semicolon (hc : c.rest = [';']) (gs : List Closer) (n : Nat) :
    ArrowFollows (skipGroup n gs (after c)) = false := by
  obtain ⟨hkind, hstop⟩ := after_semicolon hc
  refine arrowFollows_of_step (by simp [groupStep, hkind]) (fun n => ?_) n
  match n with
  | 0 => rfl
  | n + 1 =>
    have hend := not_significant_iff.2 (.inr (after_nothing hstop))
    rw [skipGroup_succ, groupStep_of_not_significant hend]
    rfl

theorem arrowFollows_closing (hc : c.rest = F.closing) (gs : List Closer) (n : Nat) :
    ArrowFollows (skipGroup n gs (after c)) = false := by
  cases F with
  | declaration => exact arrowFollows_semicolon hc gs n
  | assignment =>
    obtain ⟨hkind, hstop⟩ := after_closeParen hc
    match n, gs with
    | 0, _ => rfl
    | n + 1, .paren :: outer =>
      have hstep : groupStep (.paren :: outer) (after c) =
          if outer.isEmpty then .inr (some (after c))
          else .inl (outer, after (after c).stop) := by
        simp only [groupStep, hkind]
        rfl
      rw [skipGroup_succ, hstep]
      split
      · case _ hfound =>
        split at hfound
        · cases hfound
        · cases hfound
          exact arrowFollows_semicolon hstop _ _
      · case _ hfound =>
        split at hfound
        · cases hfound
          simp [ArrowFollows, continuesWith, next_eq, after_semicolon hstop]
        · cases hfound
    | n + 1, [] | n + 1, .bracket :: _ | n + 1, .brace :: _ | n + 1, .template :: _ =>
      rw [skipGroup_succ]
      simp [groupStep, hkind, ArrowFollows]

/-- Behind the text there is no arrow. -/
theorem arrowFollows_behind (hkind : t.kind = .punct .assign)
    (hstop : t.stop.rest = ' ' :: 'v' :: F.closing) (n : Nat) (gs : List Closer) :
    ArrowFollows (skipGroup n gs t) = false := by
  refine arrowFollows_of_step (by simp [groupStep, hkind]) (fun n => ?_) n
  obtain ⟨hkind, hstop⟩ := after_value hstop
  exact arrowFollows_of_step (by simp [groupStep, hkind]) (arrowFollows_closing hstop gs) n

theorem arrowFollows_within {n n' : Nat} (hpos : 0 < c.offset) (gs : List Closer)
    (hn : utf8Len c.rest < n) (hle : n ≤ n') :
    ArrowFollows (skipGroup n' gs (after (c.within F))) =
      ArrowFollows (skipGroup n gs (after c)) := by
  induction n generalizing c gs n' with
  | zero => exact absurd hn (Nat.not_lt_zero _)
  | succ n ih =>
    obtain ⟨n', rfl⟩ := Nat.exists_eq_succ_of_ne_zero (Nat.ne_zero_of_lt hle)
    have hc := skipInterpreterLine_of_pos hpos
    by_cases hsig : (after c).Significant
    · have hproper := after_proper hsig
      have hstep := groupStep_framed (F := F) hproper gs
      rw [after_within hc hsig, skipGroup_succ, skipGroup_succ]
      generalize groupStep gs (after c) = r at hstep ⊢
      generalize groupStep gs ((after c).within F) = r' at hstep ⊢
      cases hstep with
      | goes gs v hv hvsig =>
        have hvproper : v.Proper ∧ v.start = (after c).start := by
          rcases hv with rfl | rfl
          · exact ⟨hproper, rfl⟩
          · exact ⟨hproper.asTemplate, asTemplate_start _⟩
        have hbefore := before_after_start c
        rw [← hvproper.2] at hbefore
        have hbytes := (hbefore.trans hvproper.1.before).bytes
        have hle' := hbefore.offset_le
        have hlt := hvproper.1.lt
        exact ih hvproper.1.pos gs (by omega) (Nat.le_of_succ_le_succ hle)
      | found => exact continuesWith_within hproper.pos rfl (by decide)
      | fails => rfl
    · have hnone : skipGroup (n + 1) gs (after c) = none := by
        rw [skipGroup_succ, groupStep_of_not_significant hsig]
      rw [hnone]
      rcases after_behind hc hsig with hnone | hequals
      · rw [skipGroup_succ, groupStep_of_not_significant (hnone F)]
      · exact arrowFollows_behind (hequals F).1 (hequals F).2 _ _

theorem isGroupBeforeArrow_within (ht : t.Proper) (hk : t.kind = .punct .openParen)
    {n n' : Nat} (hn : utf8Len t.start.rest < n) (hle : n ≤ n') :
    (t.within F).isGroupBeforeArrow n' = t.isGroupBeforeArrow n := by
  obtain ⟨n, rfl⟩ := Nat.exists_eq_succ_of_ne_zero (Nat.ne_zero_of_lt hn)
  obtain ⟨n', rfl⟩ := Nat.exists_eq_succ_of_ne_zero (Nat.ne_zero_of_lt hle)
  have hstep : ∀ u : Token, u.kind = .punct .openParen →
      groupStep [] u = .inl ([.paren], after u.stop) := by
    intro u hu
    simp [groupStep, hu, next_eq]
  have hbytes := ht.before.bytes
  have hlt := ht.lt
  rw [isGroupBeforeArrow_eq, isGroupBeforeArrow_eq, skipGroup_succ, skipGroup_succ, hstep t hk,
    hstep (t.within F) hk]
  exact arrowFollows_within ht.pos _ (by omega) (Nat.le_of_succ_le_succ hle)

/-- Looking ahead for an arrow gives the same in a text and in the framed text, if there are
steps enough for all that is ahead. -/
theorem beginsArrowFunction_within (ht : t.Proper) {n n' : Nat}
    (hn : utf8Len t.start.rest < n) (hle : n ≤ n') :
    (t.within F).beginsArrowFunction n' = t.beginsArrowFunction n := by
  unfold beginsArrowFunction
  rw [kind_within]
  split
  · exact isGroupBeforeArrow_within ht ‹_› hn hle
  · by_cases hsig : t.next.Significant
    · have hproper : t.next.Proper := after_proper hsig
      have hbytes := (ht.before.trans (before_after_start t.stop)).bytes
      have hle' := (before_after_start t.stop).offset_le
      have hlt := ht.lt
      rw [← next_eq] at hbytes hle'
      rw [next_within ht.pos hsig]
      simp only [kind_within, isBindingName_within, afterLineBreak_within,
        continuesWith_within hproper.pos rfl
          (show TokenKind.punct .arrow ≠ .punct .assign by decide)]
      by_cases hopen : t.next.kind = .punct .openParen
      · rw [isGroupBeforeArrow_within hproper hopen (by omega) hle]
      · simp only [if_neg hopen]
    · have hno : ∀ (u : Token) m, ¬u.Significant ∨ u.kind = .punct .assign →
          (if u.kind = .punct .arrow then !u.afterLineBreak
            else if u.afterLineBreak then false
            else if u.kind = .punct .openParen then u.isGroupBeforeArrow m
            else u.isBindingName && u.continuesWith (.punct .arrow)) = false := by
        rintro u m hu
        rw [not_significant_iff, or_assoc] at hu
        rcases hu with hk | hk | hk <;> simp [hk, isBindingName, TokenKind.isContextual]
      dsimp only
      rw [hno t.next n (.inl hsig), hno (t.within F).next n']
      rcases after_behind (skipInterpreterLine_of_pos ht.pos) hsig with hnone | hequals
      · exact .inl (hnone F)
      · exact .inr (hequals F).1
  · rw [isBindingName_within, continuesWith_within ht.pos rfl (by decide)]

end Token

end ModuleBundler
