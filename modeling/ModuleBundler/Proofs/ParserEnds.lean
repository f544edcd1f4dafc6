import ModuleBundler.Proofs.Rules

/-!
# ModuleBundler — the parser ends

The parser is a recursion through seven phrases with many loops, and it looks ahead
in one more loop. It ends on every text, well-formed or not, since nothing of all
this goes on without taking a token: neither a phrase before it comes to a phrase inside
it, nor a round of a loop before the next round. So as many rounds as there are bytes,
and one more, are always enough.

* `Advances` — tokens are taken between two states of a parser.
* `Takes`, `GoesOn` — parsers that take a token before they succeed, and rounds that
  take one before their loop goes on.
* `IsLoop` — the loops of the grammar, `IsLoop.goesOn`.
* `groupStep`, `beginsArrowFunction_enough` — the loop that looks ahead.
* `parser_ends` — parsing ends with a tree, or with a fault on the text.
-/

namespace ModuleBundler

open Text (Cursor)

-- ---------------------------------------------------------------------------
-- Looking ahead
-- ---------------------------------------------------------------------------

namespace Token

/-- One step through a group in brackets: on to another token, or the end of the search. -/
def groupStep (groups : List Closer) (t : Token) : (List Closer × Token) ⊕ Option Token :=
  match t.kind, groups with
  | .punct .openParen, _ => .inl (.paren :: groups, t.next)
  | .punct .openBracket, _ => .inl (.bracket :: groups, t.next)
  | .punct .openBrace, _ => .inl (.brace :: groups, t.next)
  | .templateHead, _ => .inl (.template :: groups, t.next)
  | .punct .closeParen, .paren :: outer =>
    if outer.isEmpty then .inr (some t) else .inl (outer, t.next)
  | .punct .closeBracket, .bracket :: outer =>
    if outer.isEmpty then .inr (some t) else .inl (outer, t.next)
  | .punct .closeBrace, .brace :: outer => .inl (outer, t.next)
  | .punct .closeBrace, .template :: outer =>
    match t.asTemplate.kind with
    | .templateMiddle => .inl (groups, t.asTemplate.next)
    | .templateTail => .inl (outer, t.asTemplate.next)
    | _ => .inr none
  | .punct .closeParen, _ | .punct .closeBracket, _ | .punct .closeBrace, _ => .inr none
  | .endOfFile, _ | .unknown, _ => .inr none
  | _, _ => .inl (groups, t.next)

/-- Looking through a group is one step after the other. -/
theorem skipGroup_succ (n : Nat) (groups : List Closer) (t : Token) :
    skipGroup (n + 1) groups t =
      match groupStep groups t with
      | .inl (groups, u) => skipGroup n groups u
      | .inr found => found := by
  conv_lhs => unfold skipGroup
  unfold groupStep
  generalize t.kind = k
  split
  case h_5 outer => by_cases hempty : outer.isEmpty <;> simp [hempty]
  case h_6 outer => by_cases hempty : outer.isEmpty <;> simp [hempty]
  case h_8 =>
    by_cases hmiddle : t.asTemplate.kind = .templateMiddle
    · simp [hmiddle]
    · by_cases htail : t.asTemplate.kind = .templateTail
      · simp [htail]
      · simp
  case h_9 => simp
  case h_10 => simp
  case h_11 => simp
  case h_14 => simp_all
  all_goals rfl

/-- A step that goes on takes a token, the current one or the piece of a template that it
is read again as. -/
theorem groupStep_inl {groups gs : List Closer} {t u : Token}
    (h : groupStep groups t = .inl (gs, u)) :
    ∃ v, (v = t ∨ v = t.asTemplate) ∧ v.Significant ∧ u = v.next := by
  have hnext : ∀ {k g}, t.kind = k → k.isSignificant = true →
      (.inl (g, t.next) : (List Closer × Token) ⊕ Option Token) = .inl (gs, u) →
      ∃ v, (v = t ∨ v = t.asTemplate) ∧ v.Significant ∧ u = v.next := by
    intro k g hk hsig h
    cases h
    exact ⟨t, .inl rfl, .of_kind_eq hk hsig, rfl⟩
  unfold groupStep at h
  generalize hk : t.kind = k at h
  split at h
  case h_5 =>
    split at h
    · cases h
    · exact hnext hk rfl h
  case h_6 =>
    split at h
    · cases h
    · exact hnext hk rfl h
  case h_8 =>
    generalize hpiece : t.asTemplate.kind = piece at h
    split at h
    · cases h
      exact ⟨_, .inr rfl, .of_kind_eq hpiece rfl, rfl⟩
    · cases h
      exact ⟨_, .inr rfl, .of_kind_eq hpiece rfl, rfl⟩
    · cases h
  case h_14 hend hunknown _ _ _ _ =>
    cases h
    exact ⟨t, .inl rfl, ⟨fun h => hunknown (hk ▸ h), fun h => hend (hk ▸ h)⟩, rfl⟩
  all_goals first | exact hnext hk rfl h | cases h

section

variable {text : String} {c : Cursor} {m n : Nat} {groups gs : List Closer} {u : Token}

/-- The search goes on behind the token it has taken. -/
theorem groupStep_reads (h : groupStep groups (after c) = .inl (gs, u)) :
    ∃ d ts, Reads c ts d ∧ ts ≠ [] ∧ u = after d := by
  obtain ⟨v, hv, hsig, rfl⟩ := groupStep_inl h
  have hbehind : v.ReadBehind c := by
    rcases hv with rfl | rfl
    · exact .next
    · exact .template
  exact ⟨v.stop, [v], .single hbehind hsig, List.cons_ne_nil _ _, rfl⟩

/-- Where more steps are allowed than there are bytes ahead, it does not matter how many. -/
theorem skipGroup_enough (hc : (Cursor.start text).Before c) (groups : List Closer)
    (hm : text.utf8ByteSize - (after c).start.offset < m) (hn : m ≤ n) :
    skipGroup m groups (after c) = skipGroup n groups (after c) := by
  induction m generalizing c groups n with
  | zero => exact absurd hm (Nat.not_lt_zero _)
  | succ m ih =>
    obtain ⟨n, rfl⟩ := Nat.exists_eq_succ_of_ne_zero (Nat.ne_zero_of_lt hn)
    rw [skipGroup_succ, skipGroup_succ]
    cases hstep : groupStep groups (after c) with
    | inr found => rfl
    | inl r =>
      obtain ⟨d, ts, hreads, hne, hu⟩ := groupStep_reads hstep
      have hd := hc.trans hreads.before
      have hlt := hreads.lt hne
      have hnext := (before_after_start d).offset_le
      have hsize := (hd.trans (before_after_start d)).offset_le_size
      show skipGroup m r.1 r.2 = skipGroup n r.1 r.2
      rw [hu]
      exact ih hd r.1 (by omega) (Nat.le_of_succ_le_succ hn)

theorem isGroupBeforeArrow_enough (hc : (Cursor.start text).Before c)
    (hm : text.utf8ByteSize - (after c).start.offset < m) (hn : m ≤ n) :
    (after c).isGroupBeforeArrow m = (after c).isGroupBeforeArrow n := by
  unfold isGroupBeforeArrow
  rw [skipGroup_enough hc [] hm hn]

/-- The search for the end of a group never needs more steps than there are bytes ahead. -/
theorem beginsArrowFunction_enough (hc : (Cursor.start text).Before c)
    (hm : text.utf8ByteSize - (after c).start.offset < m) (hn : m ≤ n) :
    (after c).beginsArrowFunction m = (after c).beginsArrowFunction n := by
  have hstop := (before_after_start c).trans (after_start_before c)
  have hle := ((after_start_before c).trans (before_after_start (after c).stop)).offset_le
  have hahead : text.utf8ByteSize - (after (after c).stop).start.offset < m := by omega
  have hgroup := isGroupBeforeArrow_enough hc hm hn
  have hfurther : (after c).next.isGroupBeforeArrow m = (after c).next.isGroupBeforeArrow n :=
    isGroupBeforeArrow_enough (hc.trans hstop) hahead hn
  unfold beginsArrowFunction
  dsimp only
  rw [hgroup, hfurther]

end

end Token

namespace Grammar

-- ---------------------------------------------------------------------------
-- Tokens that are taken
-- ---------------------------------------------------------------------------

/-- On the way from one state on a text to another one tokens are taken, at least one, and
fewer bytes are ahead then. -/
def Advances (text : String) (s t : State) : Prop :=
  ∃ c d ts, s.Holds text c ∧ Reads c ts d ∧ ts ≠ [] ∧ t.Holds text d ∧ t.ahead < s.ahead

/-- A parser that takes a token whenever it succeeds on a text. -/
def Takes (text : String) {α : Type} (p : Parser α) : Prop :=
  ∀ ⦃c s x t⦄, s.StandsAfter text c → p s = .ok x t → Advances text s t

/-- A round that takes a token of a text whenever its loop goes on. -/
def GoesOn (text : String) {σ β : Type} (round : Parser (σ ⊕ β)) : Prop :=
  ∀ ⦃c s y t⦄, s.StandsAfter text c → round s = .ok (.inl y) t → Advances text s t

section

variable {text : String} {k : Nat} {α σ β : Type}

theorem Later.advances {c d : Cursor} {s t : State} {ts : List Token}
    (hs : s.StandsAfter text c) (h : Later text c s t d ts) (hne : ts ≠ []) :
    Advances text s t :=
  ⟨c, d, ts, hs.holds, h.reads, hne, h.stands.holds, h.ahead_lt hs hne⟩

theorem Runs.takes {p : Parser α} (h : ∀ s, Runs text k .inside always s p) : Takes text p := by
  intro c s x t hs hx
  obtain ⟨d, ts, hlater, htaken⟩ := (h s).ok hs hx
  exact hlater.advances hs (htaken rfl)

theorem Runs.goesOn {round : Parser (σ ⊕ β)}
    (h : ∀ s, Runs text k .inside Sum.isLeft s round) : GoesOn text round := by
  intro c s y t hs hy
  obtain ⟨d, ts, hlater, htaken⟩ := (h s).ok hs hy
  exact hlater.advances hs (htaken rfl)

/-- The loops of the grammar, each by its round: the lists of statements, members, cases
and entries, and the chains of accesses and operators. Only the substitutions of a template
are apart, since they begin at a token that may have been read again. -/
inductive IsLoop (g : Reading) : {σ β : Type} → (σ → Parser (σ ⊕ β)) → Prop
  | items : IsLoop g (manyRound (· = .endOfFile) (moduleItem g))
  | statements : IsLoop g (manyRound (· = .punct .closeBrace) (bracedStatement g))
  | members : IsLoop g (manyRound (· = .punct .closeBrace) (bracedMember g))
  | cases : IsLoop g (manyRound (· = .punct .closeBrace) (switchCase g))
  | caseStatements : IsLoop g (manyRound endsCase (g .statement))
  | imports : IsLoop g (listRound .closeBrace (.plain <$> importSpecifier))
  | exports : IsLoop g (listRound .closeBrace (.plain <$> exportSpecifier))
  | patternProperties : IsLoop g (listRound .closeBrace (propertyEntry g))
  | patternElements : IsLoop g (listRound .closeBracket (elementEntry g))
  | parameters : IsLoop g (listRound .closeParen (parameterEntry g))
  | arguments : IsLoop g (listRound .closeParen (.plain <$> allowIn (spreadable g)))
  | elements : IsLoop g (listRound .closeBracket (literalEntry g))
  | properties : IsLoop g (listRound .closeBrace (.plain <$> allowIn (objectProperty g)))
  | expressions : IsLoop g (separatedRound (g .assignment))
  | openingExpressions : IsLoop g (separatedRound (assignment g))
  | declarators : IsLoop g (separatedRound (declarator g))
  | accesses (start : Nat) (calls : Bool) : IsLoop g (accessRound g start calls)
  | operations (start above : Nat) : IsLoop g (operationRound g start above)

/-- No loop of the grammar goes on without taking a token. -/
theorem IsLoop.goesOn {round : σ → Parser (σ ⊕ β)} (h : IsLoop (read k) round) (x : σ) :
    GoesOn text (round x) := by
  have hg : ∀ phrase t, Runs text k .inside always t (read k phrase) := fun _ _ => .read k _ _
  cases h with
  | items => exact Runs.goesOn fun _ => .manyRound (fun _ => .moduleItem hg) x
  | statements => exact Runs.goesOn fun _ => .manyRound (fun _ => .bracedStatement hg) x
  | members => exact Runs.goesOn fun _ => .manyRound (fun _ => .bracedMember hg) x
  | cases => exact Runs.goesOn fun _ => .manyRound (fun _ => .switchCase hg) x
  | caseStatements => exact Runs.goesOn fun _ => .manyRound (fun _ => hg _ _) x
  | imports => exact Runs.goesOn (k := k) fun _ => .listRound (fun _ => .importEntry) x
  | exports => exact Runs.goesOn (k := k) fun _ => .listRound (fun _ => .exportEntry) x
  | patternProperties => exact Runs.goesOn fun _ => .listRound (fun _ => .propertyEntry hg) x
  | patternElements => exact Runs.goesOn fun _ => .listRound (fun _ => .elementEntry hg) x
  | parameters => exact Runs.goesOn fun _ => .listRound (fun _ => .parameterEntry hg) x
  | arguments => exact Runs.goesOn fun _ => .listRound (fun _ => .argument hg) x
  | elements => exact Runs.goesOn fun _ => .listRound (fun _ => .literalEntry hg) x
  | properties => exact Runs.goesOn fun _ => .listRound (fun _ => .literalProperty hg) x
  | expressions => exact Runs.goesOn fun _ => .separatedRound (fun _ => hg _ _) x
  | openingExpressions => exact Runs.goesOn fun _ => .separatedRound (fun _ => .assignment hg) x
  | declarators => exact Runs.goesOn fun _ => .separatedRound (fun _ => .declarator hg) x
  | accesses start calls => exact Runs.goesOn fun _ => .accessRound hg start calls x
  | operations start above => exact Runs.goesOn fun _ => .operationRound hg start above x

/-- No substitution of a template is read without taking the piece before it. -/
theorem substitutionRound_advances {x : List String × List Node}
    {r : (List String × List Node) ⊕ (List String × List Node)} {c : Cursor} {s t : State}
    (hs : s.Holds text c) (hsig : s.token.Significant)
    (h : substitutionRound (read k) x s = .ok r t) : Advances text s t := by
  have hexpression : ∀ t, Runs text k .inside always t (expression (read k)) :=
    fun _ => .expression fun phrase t => .read k phrase t
  obtain ⟨d, ts, hlater, hne⟩ := Runs.substitutionRound_ok hexpression hs hsig h
  exact ⟨c, d, ts, hs, hlater.reads, hne, hlater.holds,
    hs.ahead_lt hlater.holds hlater.reads hne⟩

end

-- ---------------------------------------------------------------------------
-- The end of parsing
-- ---------------------------------------------------------------------------

/-- Parsing a text has ended with the tree of the whole text, or with a fault on the text.
It did not run out of rounds. -/
def Ends (text : String) : Except Diagnostic Node → Prop
  | .ok tree => ∃ items, tree = .mk ⟨0, text.utf8ByteSize⟩ (.program items)
  | .error d => d.fault ≠ .exhausted ∧ SpanLies text d.span

section

variable {text : String} {n : Nat}

/-- One round more than there are bytes is enough, whatever the text is. -/
theorem readModule_ends (hn : text.utf8ByteSize < n) : Ends text (readModule n text) := by
  have hs := State.standsAfter_between (.refl (Cursor.start text))
  have hitems : Runs text n .inside never (.between text (Cursor.start text))
      (many (· = .endOfFile) (moduleItem (read n))) :=
    .many fun _ => .moduleItem fun phrase t => .read n phrase t
  rw [readModule_eq]
  cases hresult : many (· = .endOfFile) (moduleItem (read n))
      (.between text (Cursor.start text)) with
  | ok items t =>
    obtain ⟨d, ts, hlater, -⟩ := hitems.ok hs hresult
    exact ⟨items, by rw [hlater.stands.size_eq]⟩
  | error e t =>
    have hrefused := hitems.error hs hresult
    have hahead : (State.between text (Cursor.start text)).ahead ≤ text.utf8ByteSize :=
      Nat.sub_le _ _
    exact ⟨hrefused.enough (Nat.lt_of_le_of_lt hahead hn), hrefused.lies⟩

/-- The parser ends on every text. Its rounds suffice, and any larger number of them does;
a phrase, an item of a module and a member of a class take a token when they succeed; the
rounds of its loops take one when they go on, and so do the steps that look ahead, for which
the bytes ahead are enough. -/
theorem parser_ends (text : String) :
    Ends text (Node.parse text) ∧
      (∀ n, text.utf8ByteSize < n → Ends text (readModule n text)) ∧
      (∀ n, (∀ phrase, Takes text (read n phrase)) ∧ Takes text (moduleItem (read n)) ∧
        Takes text (expression (read n)) ∧ Takes text (classMember (read n))) ∧
      (∀ n (σ β : Type) (round : σ → Parser (σ ⊕ β)), IsLoop (read n) round →
        ∀ x, GoesOn text (round x)) ∧
      (∀ n x c (s t : State) r, s.Holds text c → s.token.Significant →
        substitutionRound (read n) x s = .ok r t → Advances text s t) ∧
      (∀ c groups gs u, Token.groupStep groups (Token.after c) = .inl (gs, u) →
        ∃ d ts, Reads c ts d ∧ ts ≠ [] ∧ u = Token.after d) ∧
      ∀ n c (s : State), s.StandsAfter text c → s.ahead < n →
        s.token.beginsArrowFunction n = s.token.beginsArrowFunction (s.ahead + 1) := by
  refine ⟨readModule_ends (Nat.lt_succ_self _), fun n hn => readModule_ends hn, fun n => ?_,
    fun n _ _ _ h x => h.goesOn x, fun n _ _ _ _ _ hs hsig h => ?_,
    fun _ _ _ _ h => Token.groupStep_reads h, fun n c s hs hn => ?_⟩
  · have hread : ∀ phrase t, Runs text n .inside always t (read n phrase) :=
      fun _ _ => .read n _ _
    exact ⟨fun phrase => Runs.takes (hread phrase), Runs.takes fun _ => .moduleItem hread,
      Runs.takes fun _ => .expression hread, Runs.takes fun _ => .classMember hread⟩
  · exact substitutionRound_advances hs hsig h
  · have hahead : s.ahead = text.utf8ByteSize - (Token.after c).start.offset := by
      rw [State.ahead, hs.size_eq, hs.token_eq]
    rw [hahead] at hn ⊢
    rw [hs.token_eq]
    exact (Token.beginsArrowFunction_enough hs.before (Nat.lt_succ_self _) hn).symm

end

end Grammar

end ModuleBundler
