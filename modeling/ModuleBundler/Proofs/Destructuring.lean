import ModuleBundler.Proofs.Literals
import ModuleBundler.Proofs.Programs

/-!
# ModuleBundler — patterns that are declared or assigned to

The pattern `T` of a declaration `let T = v;` is read as a pattern, and the one of an assignment
`(T = v);` as a literal, which is turned into a pattern when the equals sign is found. The two
are the same tree, if `T` is a pattern by itself, up to the bytes that stand before it.

Each of the two texts frames `T`. The tokens of `T` are read alike in the frame up to the bracket
that closes the pattern. Behind it stands the equals sign, unless `T` goes on with a comment that
takes it in: then an assignment is not accepted, for its parentheses are not closed.

* `ReadsPattern` — a text that is a pattern from its beginning to its end.
* `ReadsPattern.declaration`, `ReadsPattern.assignment` — its frames as statements.
* `parse_frame` — a framed text is one statement.
* `declared_eq_assigned` — the pattern that is declared is the one that is assigned to.
-/

namespace ModuleBundler

open Text (Cursor)

namespace Grammar

variable {F : Frame} {s s' t t' : State} {e e' x : Node} {n m : Nat}

-- ---------------------------------------------------------------------------
-- Behind the text
-- ---------------------------------------------------------------------------

/-- The current token is the equals sign behind the text. -/
structure AtEquals (F : Frame) (s : State) : Prop where
  kind : s.token.kind = .punct .assign
  rest : s.token.stop.rest = ' ' :: 'v' :: F.closing

/-- Behind a pattern that is all of a text stands the equals sign, unless the text ends in a
comment that takes it in. -/
theorem TakenAlike.behind (h : TakenAlike F t t') (ht : ¬t.token.Significant) :
    ¬t'.token.Significant ∨ AtEquals F t' := by
  obtain ⟨u, u', hframed, hsig, ⟨d, rfl⟩, ⟨d', rfl⟩⟩ := h
  have ht : ¬(Token.after u.token.stop).Significant := ht
  show ¬(u'.token.next).Significant ∨ _
  have hnext : u'.token.next = Token.after (u.token.stop.within F) := by
    rw [hframed.token hsig, Token.next_eq]
    rfl
  rcases Token.after_behind (Token.skipInterpreterLine_of_pos (hframed.pos hsig)) ht with
    hnone | hequals
  · exact .inl (hnext ▸ hnone F)
  · refine .inr ⟨?_, ?_⟩
    · show u'.token.next.kind = _
      rw [hnext]
      exact (hequals F).1
    · show u'.token.next.stop.rest = _
      rw [hnext]
      exact (hequals F).2

/-- An assignment that is an operand alone, or one that is assigned to. -/
theorem assignment_primary {g : Reading} (h : assignment g s = .ok e t) (hs : s.BeginsOperand) :
    ∃ d y u, primary g { s with depth := d } = .ok y u ∧ (u.token.kind.endsOperand = true →
      u.token.kind ≠ .punct .assign ∧ e = y ∧ (∃ d, t = { u with depth := d }) ∨
        u.token.kind = .punct .assign ∧ ∃ d right v,
          g .assignment { u.taken with depth := d } = .ok right v ∧
          e = .mk ⟨s.token.start.offset, v.lastStop⟩
            (.assignmentExpression (.punct .assign) y.toTarget right) ∧
          ∃ d, t = { v with depth := d }) := by
  obtain ⟨left, u, hleft, hrest⟩ := assignment_ok h hs.noYield hs.noArrow
  obtain ⟨d, y, v, hy, hends⟩ := conditional_primary hleft hs.noOperator
  refine ⟨d, y, v, hy, fun hv => ?_⟩
  obtain ⟨rfl, d', rfl⟩ := hends hv
  by_cases hassign : v.token.kind = .punct .assign
  · obtain ⟨-, right, w, hright, rfl, rfl⟩ := hrest.resolve_left fun h => by
      rw [hassign] at h
      cases h.1
    refine .inr ⟨hassign, d', right, w, hright, ?_, _, rfl⟩
    simp only [hassign, if_true]
  · obtain ⟨-, rfl, rfl⟩ := hrest.resolve_right fun h =>
      Bool.noConfusion (h.1.symm.trans (TokenKind.isAssignment_of_endsOperand hv hassign))
    exact .inl ⟨hassign, rfl, _, rfl⟩

/-- Behind the equals sign one name is read. -/
theorem value_ok (hs : AtEquals F s) (h : read m .assignment s.taken = .ok e t) :
    ∃ c : Cursor, c.rest = F.closing ∧ t.token = Token.after c := by
  have htoken : s.taken.token = Token.after s.token.stop := Token.next_eq _
  obtain ⟨hkind, hstop⟩ := Token.after_value hs.rest
  rw [← htoken] at hkind hstop
  have hname : s.taken.token.isBindingName = true := by
    unfold Token.isBindingName
    rw [hkind]
  have hnext : s.taken.token.next.kind.endsTarget = true ∧
      s.taken.token.next.kind ≠ .punct .assign := by
    rw [Token.next_eq]
    cases F with
    | declaration => rw [(Token.after_semicolon hstop).1]; decide
    | assignment => rw [(Token.after_closeParen hstop).1]; decide
  refine ⟨s.taken.token.stop, hstop, ?_⟩
  cases m with
  | zero => cases h
  | succ m =>
    obtain ⟨d, y, u, hy, hends⟩ :=
      assignment_primary h (State.beginsOperand_of_name hname hnext.1)
    have hasync : s.taken.token.beginsAsyncFunction = false := continuesWith_of_ends hnext.1 rfl
    obtain ⟨-, rfl, rfl⟩ := identifier_ok (primary_ok_of_name hy hname hasync)
    obtain ⟨-, rfl, d', rfl⟩ | ⟨hassign, -⟩ := hends (TokenKind.endsOperand_of_endsTarget hnext.1)
    · exact Token.next_eq _
    · exact absurd hassign hnext.2

/-- Behind the semicolon at the end of a framed text nothing is left. -/
theorem not_significant_of_semicolon {c : Cursor} {y : Unit} (hc : c.rest = [';'])
    (hs : s.token = Token.after c) (h : endOfStatement s = .ok y t) :
    ¬t.token.Significant := by
  obtain ⟨hkind, hstop⟩ := Token.after_semicolon hc
  rw [← hs] at hkind hstop
  obtain ⟨-, rfl⟩ | ⟨hno, -⟩ := endOfStatement_ok h
  · refine Token.not_significant_iff.2 (.inr ?_)
    show s.token.next.kind = _
    rw [Token.next_eq]
    exact Token.after_nothing hstop
  · exact absurd hkind hno

/-- Behind the value stands a parenthesis, and behind this a semicolon. -/
theorem closeParen_of_value {c : Cursor} (hc : c.rest = Frame.assignment.closing)
    (hs : s.token = Token.after c) : s.token.kind = .punct .closeParen ∧
      ∃ d : Cursor, d.rest = [';'] ∧ s.taken.token = Token.after d := by
  obtain ⟨hkind, hstop⟩ := Token.after_closeParen hc
  rw [← hs] at hkind hstop
  exact ⟨hkind, s.token.stop, hstop, Token.next_eq _⟩

-- ---------------------------------------------------------------------------
-- Before the text
-- ---------------------------------------------------------------------------

/-- Where a pattern begins in a text and in the framed text. -/
theorem opens_between {text : String} (hbracket : OpensPattern (.between text (.start text)))
    (hline : skipInterpreterLine (.start text) = .start text)
    (htoken : s'.token = Token.after ((Cursor.start text).within F)) (hin : s'.noIn = false)
    (hsize : text.utf8ByteSize + F.width ≤ s'.size) :
    State.Opens F (.between text (.start text)) s' := by
  have hsig := (State.beginsOperand_of_bracket hbracket).significant
  have htoken := htoken.trans (Token.after_within hline hsig)
  refine ⟨htoken, ?_⟩
  -- What was taken before the bracket differs, but is forgotten when the bracket is taken.
  have hframed : State.Framed F (.between text (.start text)) { s' with lastStop := F.width } := by
    have hbefore := Token.before_after_start (Cursor.start text)
    refine ⟨fun _ => htoken, fun _ => Token.after_proper hsig, ?_, hin, ?_, hsize⟩
    · exact (Nat.zero_add _).symm
    · exact ((Cursor.Before.refl _).trans hbefore).offset_add_rest.le
  exact hframed.taken hsig

/-- What begins with a parenthesis is an arrow function or an operand. -/
theorem assignment_of_paren {g : Reading} (h : assignment g s = .ok e t)
    (hopen : s.token.kind = .punct .openParen) :
    (∃ d u, arrowFunction g { s with depth := d } = .ok e u) ∨ s.BeginsOperand := by
  by_cases harrow : s.token.beginsArrowFunction (s.ahead + 1) = true
  · obtain ⟨u, hu, -⟩ := assignment_ok_of_arrow h (by rw [hopen]; decide) harrow
    exact .inl ⟨_, u, hu⟩
  · rw [Bool.not_eq_true] at harrow
    exact .inr ⟨.of_kind_eq hopen rfl, by rw [hopen]; decide, harrow, by rw [hopen]; rfl⟩

/-- Behind a parenthesis that is closed a token follows. -/
theorem significant_of_paren (h : expressionStatement (read m) s = .ok e t)
    (hopen : s.token.kind = .punct .openParen) : s.taken.token.Significant := by
  have hg := fun phrase t t' => Echo.read (F := .assignment) m m phrase t t'
  have hparameters : ∀ u, Echo .assignment u u (listUntil .closeParen (parameterEntry (read m)))
      (listUntil .closeParen (parameterEntry (read m))) _ :=
    fun _ => .listUntil fun _ _ => .parameterEntry hg
  have hexpression : ∀ u, Echo .assignment u u (expression (read m)) (expression (read m)) _ :=
    fun _ => .expression hg
  obtain ⟨x, u, v, hx, -⟩ := expressionStatement_ok h
  obtain ⟨first, w, hfirst, -⟩ := sequence_ok hx
  obtain ⟨d, w', harrow⟩ | hbegins := assignment_of_paren hfirst hopen
  · obtain ⟨ps, y, hps, -⟩ := arrowFunction_ok harrow hopen
    obtain ⟨z, hlist, hclose, -⟩ := parameters_ok hps
    have hinside := (hparameters _).lasts hlist (.of_kind_eq hclose rfl)
    exact hinside
  · obtain ⟨d, y, z, hy, -⟩ := assignment_primary hfirst hbegins
    obtain ⟨inner, z, span, hinner, hclose, -⟩ := parenthesized_ok hy hopen
    have hinside := (hexpression _).lasts hinner (.of_kind_eq hclose rfl)
    exact hinside

-- ---------------------------------------------------------------------------
-- The text as a pattern
-- ---------------------------------------------------------------------------

/-- An object pattern or an array pattern. -/
def isPattern (n : Node) : Bool :=
  match n.form with
  | .objectPattern _ | .arrayPattern _ => true
  | _ => false

/-- A text that is an object or array pattern from its first token to its last. -/
structure ReadsPattern (text : String) (pattern : Node) : Prop where
  form : isPattern pattern = true
  accepted : ∃ n t, read n .bindingTarget (.between text (.start text)) = .ok pattern t ∧
    t.token.kind = .endOfFile

section Text

variable {text : String} {pattern : Node}

theorem ReadsPattern.exists_bindingTarget (h : ReadsPattern text pattern) :
    OpensPattern (.between text (.start text)) ∧ ∃ n t,
      bindingTarget (read n) (.between text (.start text)) = .ok pattern t ∧
        ¬t.token.Significant := by
  obtain ⟨hform, n, t, hread, hend⟩ := h
  cases n with
  | zero => cases hread
  | succ n =>
    have hread : bindingTarget (read n) (.between text (.start text)) = .ok pattern t := hread
    refine ⟨?_, n, t, hread, fun hsig => hsig.more hend⟩
    obtain ⟨u, -, ⟨hk, -⟩ | ⟨hk, -⟩ | hname⟩ := bindingTarget_ok hread
    · exact .inl hk
    · exact .inr hk
    · obtain ⟨-, -, rfl⟩ := identifier_ok hname
      cases hform

/-- The pattern is what the framed text assigns to, where an assignment is read. -/
theorem ReadsPattern.assigned (h : ReadsPattern text pattern)
    (hs : State.Opens F (.between text (.start text)) s') (h' : read m .assignment s' = .ok e t') :
    ¬t'.token.Significant ∨ ∃ span value c, c.rest = F.closing ∧ t'.token = Token.after c ∧
      e = .mk span (.assignmentExpression (.punct .assign) (pattern.shift F.width) value) := by
  obtain ⟨hbracket, n, t, hread, hend⟩ := h.exists_bindingTarget
  have hbracket' : OpensPattern s' := by rwa [OpensPattern, hs.token]
  cases m with
  | zero => cases h'
  | succ m =>
    obtain ⟨d, y, u, hy, hends⟩ := assignment_primary h' (State.beginsOperand_of_bracket hbracket')
    obtain ⟨htarget, halike⟩ := pattern_covers (target_covers F n)
      (hs.setDepth 0 d) rfl hbracket hread hy
    rcases halike.behind hend with hnone | hequals
    · obtain ⟨-, -, k, rfl⟩ | ⟨hassign, -⟩ := hends (TokenKind.endsOperand_of_not_significant hnone)
      · exact .inl hnone
      · exact absurd (.of_kind_eq hassign rfl) hnone
    · obtain ⟨hno, -⟩ | ⟨-, k, value, v, hvalue, rfl, l, rfl⟩ :=
        hends (by rw [hequals.kind]; rfl)
      · exact absurd hequals.kind hno
      · have hequals : AtEquals F { u with depth := k } := ⟨hequals.kind, hequals.rest⟩
        obtain ⟨c, hc, htoken⟩ := value_ok hequals hvalue
        exact .inr ⟨_, value, c, hc, htoken, by rw [htarget]⟩

/-- The pattern is what the framed text declares, where a target is read. -/
theorem ReadsPattern.declared (h : ReadsPattern text pattern)
    (hs : State.Opens F (.between text (.start text)) s')
    (h' : read m .bindingTarget s' = .ok e t') :
    e = pattern.shift F.width ∧ (¬t'.token.Significant ∨ AtEquals F t') := by
  obtain ⟨hbracket, n, t, hread, hend⟩ := h.exists_bindingTarget
  cases m with
  | zero => cases h'
  | succ m =>
    obtain ⟨htarget, halike⟩ := pattern_echoes hs hbracket hread h'
    exact ⟨htarget, halike.behind hend⟩

/-- The framed text declares the pattern and nothing else. -/
theorem ReadsPattern.declaration (h : ReadsPattern text pattern)
    (hlet : s'.token.kind = .word .letKw)
    (hs : State.Opens .declaration (.between text (.start text))
      { s'.taken with depth := s'.depth + 1, noIn := false })
    (h' : statement (read m) s' = .ok e t') :
    ¬t'.token.Significant ∧ ∃ span span' value, e = .mk span (.variableDeclaration .letDecl
      [.mk span' (.variableDeclarator (pattern.shift Frame.declaration.width) value)]) := by
  obtain ⟨hbracket, -⟩ := h.exists_bindingTarget
  have hopens : OpensPattern s'.taken := by
    have htoken : s'.taken.token = _ := hs.token
    rwa [OpensPattern, htoken]
  obtain ⟨d, u, hd, hrest⟩ := letStatement_ok h' hlet hopens
  obtain ⟨target, v, value, htarget, hvalue, rfl⟩ := declarator_ok hd
  obtain ⟨rfl, hnone | hequals⟩ := h.declared hs htarget
  · obtain ⟨hassign, -⟩ | ⟨-, rfl, rfl⟩ := hvalue
    · exact absurd (.of_kind_eq hassign rfl) hnone
    obtain ⟨w, span, hend, rfl, k, rfl⟩ := hrest fun hcomma => hnone (.of_kind_eq hcomma rfl)
    obtain ⟨hsemicolon, -⟩ | ⟨-, rfl⟩ := endOfStatement_ok hend
    · exact absurd (.of_kind_eq hsemicolon rfl) hnone
    · exact ⟨hnone, span, _, none, rfl⟩
  · obtain ⟨-, y, hy, rfl⟩ | ⟨hno, -⟩ := hvalue
    · obtain ⟨c, hc, htoken⟩ := value_ok hequals hy
      have hkind : u.token.kind = .punct .semicolon := htoken ▸ (Token.after_semicolon hc).1
      obtain ⟨w, span, hend, rfl, k, rfl⟩ := hrest (by rw [hkind]; decide)
      have hnone := not_significant_of_semicolon (s := { u with noIn := s'.noIn }) hc htoken hend
      exact ⟨hnone, span, _, some y, rfl⟩
    · exact absurd hequals.kind hno

/-- If the framed text is read as parameters, the semicolon stands behind them. -/
theorem ReadsPattern.parameters (h : ReadsPattern text pattern) {ps : List Node}
    (hs : State.Opens .assignment (.between text (.start text)) { s'.taken with noIn := false })
    (h' : parameters (read m) s' = .ok ps t') : t'.token.kind = .punct .semicolon := by
  obtain ⟨hbracket, -⟩ := h.exists_bindingTarget
  have hbracket' : OpensPattern { s'.taken with noIn := false } := by
    rwa [OpensPattern, hs.token]
  have hnot : ∀ k : TokenKind, k ≠ .punct .openBrace → k ≠ .punct .openBracket →
      ({ s'.taken with noIn := false } : State).token.kind ≠ k := by
    rintro k hbrace hsquare rfl
    exact hbracket'.elim hbrace hsquare
  obtain ⟨u, hlist, hclose, rfl⟩ := parameters_ok h'
  obtain ⟨k, _, hrounds, hlist⟩ := bind_ok hlist
  cases hrounds
  rw [listUntil_go_eq] at hlist
  obtain ⟨e, v, he, hrest⟩ := listRounds_more hlist (hnot _ (by decide) (by decide))
  obtain ⟨y, hy, rfl⟩ := parameterEntry_ok he (hnot _ (by decide) (by decide))
  obtain ⟨start, _, hpos, hy⟩ := bind_ok hy
  cases hpos
  obtain ⟨target, w, htarget, hy⟩ := bind_ok hy
  obtain ⟨-, hnone | hequals⟩ := h.declared hs htarget
  · obtain ⟨hassign, -⟩ | ⟨-, -, rfl⟩ := withDefault_ok hy
    · exact absurd (.of_kind_eq hassign rfl) hnone
    · obtain ⟨hclose, -⟩ | ⟨-, hcomma, -⟩ := hrest
      · exact absurd (.of_kind_eq hclose rfl) hnone
      · exact absurd (.of_kind_eq hcomma rfl) hnone
  · obtain ⟨-, value, hvalue, -⟩ | ⟨hno, -⟩ := withDefault_ok hy
    · obtain ⟨x, hx, rfl⟩ := withIn_ok hvalue
      have hequals : AtEquals .assignment { w with noIn := false } := ⟨hequals.kind, hequals.rest⟩
      obtain ⟨c, hc, htoken⟩ := value_ok hequals hx
      obtain ⟨hkind, d, hd, hnext⟩ := closeParen_of_value hc htoken
      obtain ⟨-, hrest⟩ := hrest.resolve_right fun h => h.1 hkind
      obtain ⟨-, rfl⟩ := listRounds_closed hrest hkind
      show x.taken.token.kind = _
      rw [hnext]
      exact (Token.after_semicolon hd).1
    · exact absurd hequals.kind hno

/-- No arrow follows the parentheses of the framed text. -/
theorem ReadsPattern.not_arrowFunction (h : ReadsPattern text pattern)
    (hopen : s'.token.kind = .punct .openParen)
    (hs : State.Opens .assignment (.between text (.start text)) { s'.taken with noIn := false })
    (h' : arrowFunction (read m) s' = .ok e t') : False := by
  obtain ⟨ps, u, hps, harrow⟩ := arrowFunction_ok h' hopen
  cases (h.parameters hs hps).symm.trans harrow

/-- The framed text assigns to the pattern and does nothing else. -/
theorem ReadsPattern.assignment (h : ReadsPattern text pattern)
    (hopen : s'.token.kind = .punct .openParen)
    (hs : State.Opens .assignment (.between text (.start text)) { s'.taken with noIn := false })
    (h' : expressionStatement (read m) s' = .ok e t') :
    ¬t'.token.Significant ∧ ∃ span span' span'' value, e = .mk span (.expressionStatement
      (.mk span' (.parenthesizedExpression (.mk span'' (.assignmentExpression (.punct .assign)
        (pattern.shift Frame.assignment.width) value))))) := by
  obtain ⟨x, u, v, hx, hend, rfl, rfl⟩ := expressionStatement_ok h'
  obtain ⟨first, w, hfirst, hsequence⟩ := sequence_ok hx
  have hdepth : ∀ d, State.Opens .assignment (.between text (.start text))
      { s'.taken with depth := d, noIn := false } := fun d => hs.setDepth 0 d
  obtain ⟨d, w', harrow⟩ | hbegins := assignment_of_paren hfirst hopen
  · exact (h.not_arrowFunction (by exact hopen) (by exact hdepth d) harrow).elim
  obtain ⟨d, y, z, hy, hends⟩ := assignment_primary hfirst hbegins
  obtain ⟨inner, u', span, hinner, hclose, rfl, rfl⟩ := parenthesized_ok hy hopen
  obtain ⟨assigned, v', hassigned, hcomma⟩ := sequence_ok hinner
  obtain hnone | ⟨span', value, c, hc, htoken, rfl⟩ := h.assigned (hdepth d) hassigned
  · obtain ⟨-, rfl, rfl⟩ := hcomma.resolve_right fun h => hnone (.of_kind_eq h.1 rfl)
    exact absurd (.of_kind_eq hclose rfl) hnone
  · obtain ⟨hkind, c', hc', hnext⟩ := closeParen_of_value hc htoken
    obtain ⟨-, rfl, rfl⟩ := hcomma.resolve_right fun h => by cases hkind.symm.trans h.1
    have hsemicolon : u'.taken.token.kind = .punct .semicolon :=
      hnext ▸ (Token.after_semicolon hc').1
    obtain ⟨-, rfl, k, rfl⟩ | ⟨hassign, -⟩ := hends (by
      show u'.taken.token.kind.endsOperand = true
      rw [hsemicolon]
      rfl)
    · obtain ⟨-, rfl, rfl⟩ := hsequence.resolve_right fun h => by cases hsemicolon.symm.trans h.1
      exact ⟨not_significant_of_semicolon hc' (by exact hnext) hend, _, span, span', value, rfl⟩
    · cases hsemicolon.symm.trans hassign

end Text

-- ---------------------------------------------------------------------------
-- Whole texts
-- ---------------------------------------------------------------------------

/-- A text whose first item is all that there is. -/
theorem parse_single {text : String} {tree : Node} (h : Node.parse text = .ok tree)
    (hsig : (Token.after (.start text)).Significant) :
    ∃ e t, moduleItem (read (text.utf8ByteSize + 1)) (.between text (.start text)) = .ok e t ∧
      (¬t.token.Significant → ∃ span, tree = .mk span (.program [e])) := by
  obtain ⟨ns, t, rfl, hchain, hend⟩ := parse_eq_ok.1 h
  cases hchain with
  | nil => exact absurd hend hsig.more
  | @cons _ u _ e es he hrest =>
    refine ⟨e, u, he, fun hnone => ?_⟩
    obtain ⟨d, rfl, hbefore, -⟩ := moduleItem_between (.refl _) he
    cases hrest with
    | nil => exact ⟨_, rfl⟩
    | cons hnext =>
      obtain ⟨-, -, -, hlies, -⟩ := moduleItem_between hbefore hnext
      exact absurd hlies.significant hnone

/-- The first item of a framed text, and how what stands before the text was taken. -/
theorem parse_frame {text : String} {tree : Node} (F : Frame)
    (h : Node.parse (F.text text) = .ok tree) :
    ∃ s e t, s.token.kind = F.opener ∧ s.noIn = false ∧
      s.taken.token = Token.after ((Cursor.start text).within F) ∧
      text.utf8ByteSize + F.width ≤ s.size ∧
      statement (read (F.text text).utf8ByteSize) s = .ok e t ∧
      (¬t.token.Significant → ∃ span, tree = .mk span (.program [e])) := by
  obtain ⟨hkind, hnext⟩ := Token.after_start_text F text
  have hsig : (Token.after (.start (F.text text))).Significant := by
    constructor <;> rw [hkind] <;> cases F <;> decide
  obtain ⟨e, t, hitem, hsingle⟩ := parse_single h hsig
  refine ⟨.between (F.text text) (.start (F.text text)), e, t, hkind, rfl, hnext, ?_, ?_, hsingle⟩
  · show text.utf8ByteSize + F.width ≤ (F.text text).utf8ByteSize
    simp only [Frame.text, Frame.width, String.utf8ByteSize_append]
    omega
  · have hkind : (State.between (F.text text) (.start (F.text text))).token.kind = F.opener := hkind
    refine statement_of_item hitem ?_ ?_ <;> rw [hkind] <;> cases F <;> decide

/-- What a program of one declaration declares. -/
def declaredTarget? (tree : Node) : Option Node :=
  match tree.form with
  | .program [statement] =>
    match statement.form with
    | .variableDeclaration _ [declarator] =>
      match declarator.form with
      | .variableDeclarator target _ => some target
      | _ => none
    | _ => none
  | _ => none

/-- What a program of one assignment in parentheses assigns to. -/
def assignedTarget? (tree : Node) : Option Node :=
  match tree.form with
  | .program [statement] =>
    match statement.form with
    | .expressionStatement expression =>
      match expression.form with
      | .parenthesizedExpression inner =>
        match inner.form with
        | .assignmentExpression (.punct .assign) left _ => some left
        | _ => none
      | _ => none
    | _ => none
  | _ => none

section Text

variable {text : String} {pattern declared assigned : Node}

theorem ReadsPattern.declaredTarget (h : ReadsPattern text pattern)
    (hline : skipInterpreterLine (.start text) = .start text)
    (hdeclared : Node.parse (Frame.declaration.text text) = .ok declared) :
    declaredTarget? declared = some (pattern.shift Frame.declaration.width) := by
  obtain ⟨hbracket, -⟩ := h.exists_bindingTarget
  obtain ⟨s, e, t, hkind, hin, htoken, hsize, hstatement, hsingle⟩ := parse_frame _ hdeclared
  have hopens : State.Opens .declaration (.between text (.start text))
      { s.taken with depth := s.depth + 1, noIn := false } :=
    opens_between hbracket hline htoken rfl hsize
  obtain ⟨hend, span, span', value, rfl⟩ := h.declaration hkind hopens hstatement
  obtain ⟨span, rfl⟩ := hsingle hend
  rfl

theorem ReadsPattern.assignedTarget (h : ReadsPattern text pattern)
    (hassigned : Node.parse (Frame.assignment.text text) = .ok assigned) :
    skipInterpreterLine (.start text) = .start text ∧
      assignedTarget? assigned = some (pattern.shift Frame.assignment.width) := by
  obtain ⟨hbracket, -⟩ := h.exists_bindingTarget
  obtain ⟨s, e, t, hkind, hin, htoken, hsize, hstatement, hsingle⟩ := parse_frame _ hassigned
  obtain ⟨u, hexpression, rfl⟩ := parenStatement_ok hstatement hkind
  have hsig := significant_of_paren hexpression (by exact hkind)
  have hline := Token.skipInterpreterLine_of_significant (by rwa [← htoken])
  have hopens : State.Opens .assignment (.between text (.start text))
      { s.taken with depth := s.depth + 1, noIn := false } :=
    opens_between hbracket hline htoken rfl hsize
  obtain ⟨hend, span, span', span'', value, rfl⟩ :=
    h.assignment (by exact hkind) hopens hexpression
  obtain ⟨span, rfl⟩ := hsingle hend
  exact ⟨hline, rfl⟩

/-- A text that is an object or array pattern is read as the same pattern where it is declared and
where, as a literal first, it is assigned to: the trees differ only in how many bytes stand before
the text, and they bind the same names. -/
theorem declared_eq_assigned (hpattern : ReadsPattern text pattern)
    (hdeclared : Node.parse ("let " ++ text ++ " = v;") = .ok declared)
    (hassigned : Node.parse ("(" ++ text ++ " = v);") = .ok assigned) :
    ∃ target left, declaredTarget? declared = some target ∧ assignedTarget? assigned = some left ∧
      target = pattern.shift 4 ∧ left = pattern.shift 1 ∧ target = left.shift 3 ∧
      target.boundNames = left.boundNames := by
  obtain ⟨hline, hleft⟩ := hpattern.assignedTarget hassigned
  have htarget := hpattern.declaredTarget hline hdeclared
  refine ⟨_, _, htarget, hleft, rfl, rfl, ?_, ?_⟩
  · rw [Node.shift_shift]
    rfl
  · rw [Node.boundNames_shift, Node.boundNames_shift]

end Text

/-- A pattern with a hole, defaults, a computed key, shorthands and rests. -/
theorem declared_eq_assigned_nested :
    let text := "[a, , \x7bb = 1, [c]: d = 2, ...e\x7d, ...[f]]"
    ∃ pattern declared assigned target left, ReadsPattern text pattern ∧
      Node.parse ("let " ++ text ++ " = v;") = .ok declared ∧
      Node.parse ("(" ++ text ++ " = v);") = .ok assigned ∧
      declaredTarget? declared = some target ∧ assignedTarget? assigned = some left ∧
      target = pattern.shift 4 ∧ left = pattern.shift 1 ∧ target = left.shift 3 ∧
      target.boundNames = left.boundNames := by
  intro text
  have hread : ∃ x ∈ (do return (← read 20 .bindingTarget, ← kind) : Parser _).run'
      (.between text (.start text)), isPattern x.1 = true ∧ x.2 = .endOfFile := by
    decide +kernel
  have hparse : ∀ {source : String}, (Node.parse source).isOk = true →
      ∃ tree, Node.parse source = .ok tree := by
    intro source hsource
    cases h : Node.parse source with
    | error d => rw [h] at hsource; cases hsource
    | ok tree => exact ⟨tree, rfl⟩
  obtain ⟨x, hx, hform, hend⟩ := hread
  obtain ⟨_, hx⟩ := exists_of_mem_run' hx
  obtain ⟨pattern, t, hpattern, hx⟩ := bind_ok hx
  cases hx
  have hpattern : ReadsPattern text pattern := ⟨hform, 20, _, hpattern, hend⟩
  obtain ⟨declared, hdeclared⟩ : ∃ tree, Node.parse ("let " ++ text ++ " = v;") = .ok tree :=
    hparse (by decide +kernel)
  obtain ⟨assigned, hassigned⟩ : ∃ tree, Node.parse ("(" ++ text ++ " = v);") = .ok tree :=
    hparse (by decide +kernel)
  obtain ⟨target, left, hresult⟩ := declared_eq_assigned hpattern hdeclared hassigned
  exact ⟨pattern, declared, assigned, target, left, hpattern, hdeclared, hassigned, hresult⟩

end Grammar

end ModuleBundler
