import ModuleBundler.Proofs.Rules
import ModuleBundler.Proofs.Specifiers

/-!
# ModuleBundler — the rules of the grammar nest their brackets

Every rule that takes an opening bracket takes the bracket that closes it, and a template
is taken from its head to its tail. So the tokens that a rule takes leave the brackets
around them as they are. This is told of the tokens as the rule takes them: a slash that was
read anew is one token, whatever brackets it holds.

* `TokenKind.shift`, `openAfter` — the brackets that are open, and what tokens do to them.
* `Nests` — parsers whose tokens lead from some open brackets to others.
* `Nests.rule` — from the phrases inside a rule to the rule, `Nests.read` for the grammar.
-/

namespace ModuleBundler

open Text (Cursor)

-- ---------------------------------------------------------------------------
-- Open brackets
-- ---------------------------------------------------------------------------

/-- Closes the innermost of the brackets that are open, if it is the right one. -/
def close (c : Token.Closer) : List Token.Closer → Option (List Token.Closer)
  | [] => none
  | g :: gs => if g = c then some gs else none

/-- What a token of a kind does to the brackets that are open: it opens one, closes the
innermost one, or leaves them as they are. -/
def TokenKind.shift (k : TokenKind) (gs : List Token.Closer) : Option (List Token.Closer) :=
  match k with
  | .punct .openParen => some (.paren :: gs)
  | .punct .openBracket => some (.bracket :: gs)
  | .punct .openBrace => some (.brace :: gs)
  | .templateHead => some (.template :: gs)
  | .punct .closeParen => close .paren gs
  | .punct .closeBracket => close .bracket gs
  | .punct .closeBrace => close .brace gs
  | .templateMiddle => (close .template gs).map (.template :: ·)
  | .templateTail => close .template gs
  | _ => some gs

/-- The brackets that are open after some tokens. -/
def openAfter (gs : List Token.Closer) (ts : List Token) : Option (List Token.Closer) :=
  ts.foldlM (fun gs t => t.kind.shift gs) gs

section

variable {gs ms hs : List Token.Closer} {ts us : List Token}

theorem close_eq_some {c : Token.Closer} (h : close c gs = some hs) : gs = c :: hs := by
  cases gs with
  | nil => cases h
  | cons g gs =>
    rw [close] at h
    split at h
    · case isTrue hg =>
      cases h
      rw [hg]
    · cases h

theorem close_cons (c : Token.Closer) (gs : List Token.Closer) : close c (c :: gs) = some gs :=
  if_pos rfl

/-- A bracket that is open further out does not matter. -/
theorem TokenKind.shift_append {k : TokenKind} (h : k.shift gs = some hs)
    (outer : List Token.Closer) : k.shift (gs ++ outer) = some (hs ++ outer) := by
  have hclose : ∀ {c ms}, close c gs = some ms → close c (gs ++ outer) = some (ms ++ outer) := by
    intro c ms hgs
    rw [close_eq_some hgs, List.cons_append, close_cons]
  unfold shift at *
  split at h
  case h_8 =>
    obtain ⟨ms, hms, rfl⟩ := Option.map_eq_some_iff.1 h
    rw [hclose hms]
    rfl
  case h_10 =>
    cases h
    rfl
  all_goals first | exact hclose h | (cases h; rfl)

theorem openAfter_append (h : openAfter gs ts = some ms) (h' : openAfter ms us = some hs) :
    openAfter gs (ts ++ us) = some hs := by
  unfold openAfter at *
  rw [List.foldlM_append, h]
  exact h'

theorem openAfter_cons_eq_some {t : Token} :
    openAfter gs (t :: ts) = some hs ↔
      ∃ ms, t.kind.shift gs = some ms ∧ openAfter ms ts = some hs := by
  unfold openAfter
  rw [List.foldlM_cons]
  exact Option.bind_eq_some_iff

theorem openAfter_outer (h : openAfter gs ts = some hs) (outer : List Token.Closer) :
    openAfter (gs ++ outer) ts = some (hs ++ outer) := by
  induction ts generalizing gs with
  | nil =>
    cases h
    rfl
  | cons t ts ih =>
    obtain ⟨ms, hshift, h⟩ := openAfter_cons_eq_some.1 h
    exact openAfter_cons_eq_some.2 ⟨ms ++ outer, TokenKind.shift_append hshift outer, ih h⟩

theorem openAfter_single {t : Token} (h : t.kind.shift gs = some hs) :
    openAfter gs [t] = some hs :=
  openAfter_cons_eq_some.2 ⟨hs, h, rfl⟩

end

-- ---------------------------------------------------------------------------
-- Tokens that are no brackets
-- ---------------------------------------------------------------------------

/-- The brackets, the pieces of templates among them, and the two kinds that no rule takes. -/
def TokenKind.brackets : List TokenKind :=
  [.unknown, .endOfFile, .punct .openParen, .punct .openBracket, .punct .openBrace,
    .templateHead, .punct .closeParen, .punct .closeBracket, .punct .closeBrace,
    .templateMiddle, .templateTail]

/-- A token that a rule may take, and that is no bracket. -/
def Token.Plain (t : Token) : Prop := t.kind ∉ TokenKind.brackets

theorem TokenKind.shift_of_notMem {k : TokenKind} (h : k ∉ brackets) (gs : List Token.Closer) :
    k.shift gs = some gs := by
  unfold shift
  split
  case h_10 => rfl
  all_goals exact absurd (by decide) h

namespace Token.Plain

variable {t : Token}

theorem significant (h : t.Plain) : t.Significant :=
  ⟨fun hk => h (hk ▸ by decide), fun hk => h (hk ▸ by decide)⟩

theorem shift_eq (h : t.Plain) (gs : List Closer) : t.kind.shift gs = some gs :=
  TokenKind.shift_of_notMem h gs

theorem of_kind_eq {k : TokenKind} (ht : t.kind = k) (hk : decide (k ∉ TokenKind.brackets) = true) :
    t.Plain := by
  unfold Plain
  rw [ht]
  exact of_decide_eq_true hk

theorem of_kind (p : TokenKind → Bool) (ht : p t.kind = true)
    (hp : TokenKind.brackets.all (fun k => !p k) = true) : t.Plain := by
  intro hmem
  have hnot := List.all_eq_true.1 hp _ hmem
  rw [ht] at hnot
  cases hnot

theorem of_isBindingName (ht : t.isBindingName = true) : t.Plain :=
  of_kind TokenKind.isNameOrKeyword (isNameOrKeyword_of_isBindingName ht) rfl

end Token.Plain

namespace Grammar

-- ---------------------------------------------------------------------------
-- Nests
-- ---------------------------------------------------------------------------

/-- What holds of a parser from a state on if it takes its tokens so that some open brackets
become others. -/
structure Nests (text : String) (gs hs : List Token.Closer) {α : Type} (s : State)
    (p : Parser α) : Prop where
  ok : ∀ ⦃c x t⦄, s.StandsAfter text c → p s = .ok x t →
    ∃ d ts, Later text c s t d ts ∧ openAfter gs ts = some hs

namespace Nests

section Steps

variable {text : String} {gs ms hs : List Token.Closer} {α β σ : Type} {s : State}
  {p : Parser α} {f : α → Parser β} {κ : TokenKind}

-- ---------------------------------------------------------------------------
-- Steps
-- ---------------------------------------------------------------------------

theorem bind (hp : Nests text gs ms s p) (hf : ∀ x t, Nests text ms hs t (f x)) :
    Nests text gs hs s (p >>= f) := by
  refine ⟨fun c y u hs h => ?_⟩
  obtain ⟨x, t, hx, hy⟩ := bind_ok h
  obtain ⟨d, ts, hlater, hopen⟩ := hp.ok hs hx
  obtain ⟨e, us, hlater', hopen'⟩ := (hf x t).ok hlater.stands hy
  exact ⟨e, ts ++ us, hlater.trans hlater', openAfter_append hopen hopen'⟩

/-- What leaves the brackets as they are does so under any brackets. -/
theorem under (hp : Nests text [] [] s p) : Nests text gs gs s p := by
  refine ⟨fun c x t hs h => ?_⟩
  obtain ⟨d, ts, hlater, hopen⟩ := hp.ok hs h
  exact ⟨d, ts, hlater, openAfter_outer hopen gs⟩

/-- A step after one that leaves the brackets as they are. -/
theorem first (hp : Nests text [] [] s p) (hf : ∀ x t, Nests text gs hs t (f x)) :
    Nests text gs hs s (p >>= f) :=
  hp.under.bind hf

theorem look {v : State → α} (h : Nests text gs hs s (f (v s))) :
    Nests text gs hs s ((fun s => .ok (v s) s) >>= f) :=
  ⟨fun _ _ _ hs hy => h.ok hs hy⟩

theorem done {v : State → α} : Nests text gs gs s fun s => .ok (v s) s := by
  refine ⟨fun c x t hs hx => ?_⟩
  cases hx
  exact ⟨c, [], .refl hs, rfl⟩

theorem pure {x : α} : Nests text gs gs s (Pure.pure x : Parser α) := by
  refine ⟨fun c y t hs hy => ?_⟩
  cases hy
  exact ⟨c, [], .refl hs, rfl⟩

theorem fail {fault : SyntaxFault} : Nests text gs hs s (Grammar.fail fault : Parser α) :=
  ⟨fun _ _ _ _ hx => nomatch hx⟩

theorem ite {c : Prop} [Decidable c] {p q : Parser α} (hp : c → Nests text gs hs s p)
    (hq : ¬c → Nests text gs hs s q) : Nests text gs hs s (if c then p else q) := by
  split
  · exact hp ‹_›
  · exact hq ‹_›

theorem map (hp : Nests text gs hs s p) (f : α → β) : Nests text gs hs s (f <$> p) := by
  rw [map_eq_pure_bind]
  exact hp.bind fun _ _ => .pure

theorem nested (hp : Nests text gs hs { s with depth := s.depth + 1 } p) :
    Nests text gs hs s (Grammar.nested p) := by
  refine ⟨fun c x u hs h => ?_⟩
  obtain ⟨t, ht, rfl⟩ := nested_ok h
  obtain ⟨d, ts, hlater, hopen⟩ := hp.ok (hs.setDepth _) ht
  have hdepth : t.depth = s.depth + 1 := hlater.depth_eq
  refine ⟨d, ts, ⟨hlater.stands.setDepth _, hlater.reads, ?_, hlater.noIn_eq⟩, hopen⟩
  show t.depth - 1 = s.depth
  omega

theorem withIn {noIn : Bool} (hp : Nests text gs hs { s with noIn := noIn } p) :
    Nests text gs hs s (Grammar.withIn noIn p) := by
  refine ⟨fun c x u hs h => ?_⟩
  obtain ⟨t, ht, rfl⟩ := withIn_ok h
  obtain ⟨d, ts, hlater, hopen⟩ := hp.ok (hs.setNoIn _) ht
  exact ⟨d, ts, ⟨hlater.stands.setNoIn _, hlater.reads, hlater.depth_eq, rfl⟩, hopen⟩

theorem allowIn (hp : Nests text gs hs { s with noIn := false } p) :
    Nests text gs hs s (Grammar.allowIn p) :=
  hp.withIn

-- ---------------------------------------------------------------------------
-- Tokens
-- ---------------------------------------------------------------------------

/-- Taking a token does to the brackets what its kind does. -/
theorem take (hsig : s.token.Significant) (h : s.token.kind.shift gs = some hs) :
    Nests text gs hs s Grammar.advance := by
  refine ⟨fun c x t hs hx => ?_⟩
  cases hx
  exact ⟨_, _, later_advance hs hsig, openAfter_single h⟩

theorem advance (h : s.token.Plain) : Nests text gs gs s Grammar.advance :=
  .take h.significant (h.shift_eq gs)

/-- What follows a token that may be there, and what stands in its place. -/
theorem accepting (hκ : κ.isSignificant = true) (h : κ.shift gs = some ms) {p q : Parser β}
    (hp : ∀ t, Nests text ms hs t p) (hq : ∀ t, Nests text gs hs t q) :
    Nests text gs hs s (Grammar.accept κ >>= fun taken => if taken then p else q) := by
  refine ⟨fun c y u hs hy => ?_⟩
  obtain ⟨taken, t, haccept, hy⟩ := bind_ok hy
  obtain ⟨isThere, _, hat, haccept⟩ := bind_ok haccept
  cases hat
  split at haccept
  · case isTrue hk =>
    have hk : s.token.kind = κ := of_decide_eq_true hk
    obtain ⟨_, _, hadvance, haccept⟩ := bind_ok haccept
    cases haccept
    have htake : Nests text gs ms s Grammar.advance := take (.of_kind_eq hk hκ) (hk ▸ h)
    obtain ⟨d, ts, hlater, hopen⟩ := htake.ok hs hadvance
    obtain ⟨e, us, hlater', hopen'⟩ := (hp _).ok hlater.stands hy
    exact ⟨e, ts ++ us, hlater.trans hlater', openAfter_append hopen hopen'⟩
  · cases haccept
    exact (hq s).ok hs hy

theorem expect (hκ : κ.isSignificant = true) (h : κ.shift gs = some hs) :
    Nests text gs hs s (Grammar.expect κ) := by
  refine ⟨fun c x t hs hx => ?_⟩
  obtain ⟨hk, rfl⟩ := expect_ok hx
  exact (take (.of_kind_eq hk hκ) (hk ▸ h)).ok hs rfl

/-- A token that may be there, and is no bracket. -/
theorem accept (hκ : κ.isSignificant = true) (h : κ.shift gs = some gs) :
    Nests text gs gs s (Grammar.accept κ) := by
  refine .look (.ite (fun hk => ?_) fun _ => .pure)
  have hk : s.token.kind = κ := of_decide_eq_true hk
  exact .bind (.take (.of_kind_eq hk hκ) (hk ▸ h)) fun _ _ => .pure

-- ---------------------------------------------------------------------------
-- Loops
-- ---------------------------------------------------------------------------

/-- A loop leaves the brackets as they are if its rounds do. -/
theorem loop {round : σ → Parser (σ ⊕ β)} (hround : ∀ x t, Nests text [] [] t (round x)) {n : Nat}
    (x : σ) : Nests text [] [] s (Grammar.loop round n x) := by
  induction n generalizing s x with
  | zero => exact ⟨fun _ _ _ _ hx => nomatch hx⟩
  | succ n ih =>
    refine .bind (hround x s) fun r t => ?_
    cases r with
    | inl y => exact ih y
    | inr b => exact .pure

theorem many {ends : TokenKind → Bool} {item : Parser α}
    (hitem : ∀ t, Nests text [] [] t item) : Nests text [] [] s (Grammar.many ends item) := by
  refine .look ?_
  rw [many_go_eq]
  refine .loop (fun acc _ => ?_) _
  exact .look (.ite (fun _ => .pure) fun _ => .bind (hitem _) fun _ _ => .pure)

theorem listUntil {closing : Punctuator} {entry : Parser (Entry α)}
    (hentry : ∀ t, Nests text [] [] t entry) :
    Nests text [] [] s (Grammar.listUntil closing entry) := by
  refine .look ?_
  rw [listUntil_go_eq]
  refine .loop (fun acc _ => ?_) _
  refine .look (.ite (fun _ => .pure) fun _ => .bind (hentry _) fun e t => ?_)
  cases e with
  | plain x =>
    exact .look (.ite (fun _ => .bind (.expect rfl rfl) fun _ _ => .pure) fun _ => .pure)
  | whole x => exact .pure
  | last x => exact .pure

theorem separated {item : Parser α} (hitem : ∀ t, Nests text [] [] t item) :
    Nests text [] [] s (Grammar.separated item) := by
  refine .look (.bind (hitem s) fun x t => ?_)
  rw [separated_go_eq]
  refine .loop (fun acc _ => ?_) _
  exact .accepting rfl rfl (fun t => .bind (hitem t) fun _ _ => .pure) fun _ => .pure

end Steps

-- ---------------------------------------------------------------------------
-- Tokens that are read anew
-- ---------------------------------------------------------------------------

section Anew

variable {text : String} {gs : List Token.Closer} {c : Cursor} {s t : State} {g : Reading}

/-- A regular expression is one token, and no bracket. -/
theorem regex : Nests text gs gs s Grammar.regex := by
  refine ⟨fun c x t hs h => ?_⟩
  obtain ⟨_, s', hread, h⟩ := bind_ok h
  cases hread
  obtain ⟨isRegex, _, hat, h⟩ := bind_ok h
  cases hat
  split at h
  · case _ hk =>
    have hk : s.token.asRegex.kind = .regex := by simpa using hk
    have hplain : s.token.asRegex.Plain := .of_kind_eq hk rfl
    cases h
    exact ⟨_, _, ⟨hs.asRegex.taken, .single hs.asRegex.token hplain.significant, rfl, rfl⟩,
      openAfter_single (hplain.shift_eq gs)⟩
  · cases h

/-- The piece behind a substitution goes on with the template or ends it. -/
theorem kind_of_pieceRound {quasis : List String} {expressions : List Node} {r}
    (h : Grammar.pieceRound quasis expressions s = .ok r t) :
    t.token.kind = if r.isLeft then .templateMiddle else .templateTail := by
  obtain ⟨_, s', hread, h⟩ := bind_ok h
  cases hread
  obtain ⟨piece, _, hcur, h⟩ := bind_ok h
  cases hcur
  dsimp only at h
  generalize hk : s.token.asTemplate.kind = kind at h
  split at h
  · cases h
    exact hk
  · cases h
    exact hk
  · cases h

variable {ms : List Token.Closer} (he : ∀ t, Nests text [] [] t (expression g))
include he

theorem substituted : Nests text [] [] s (Grammar.substituted g) :=
  .bind (.allowIn (he _)) fun _ _ => .look <|
    .ite (fun _ => .bind .fail fun _ _ => .pure) fun _ => .pure

/-- Between two pieces of a template the template is open. -/
theorem substitutionRound_ok {x : List String × List Node} {r} (hs : s.Holds text c)
    (hsig : s.token.Significant) (hshift : s.token.kind.shift ms = some (.template :: gs))
    (h : Grammar.substitutionRound g x s = .ok r t) :
    ∃ d ts, Runs.LaterAnew text c s t d ts ∧ openAfter ms ts = some (.template :: gs) ∧
      t.token.kind = if r.isLeft then .templateMiddle else .templateTail := by
  obtain ⟨_, s₁, hadv, h⟩ := bind_ok h
  cases hadv
  obtain ⟨e, s₂, hexp, h⟩ := bind_ok h
  obtain ⟨d, ts, hlater, hopen⟩ := (substituted he).under.ok hs.taken hexp
  have hpiece := Runs.pieceRound_ok hlater.stands h
  refine ⟨d, s.token :: ts, ⟨hpiece.holds, .cons hs.token hsig hlater.reads, hpiece.significant,
    hpiece.depth_eq.trans hlater.depth_eq, hpiece.noIn_eq.trans hlater.noIn_eq⟩,
    openAfter_cons_eq_some.2 ⟨_, hshift, hopen⟩, kind_of_pieceRound h⟩

/-- The last piece, which is not taken yet, ends the template. -/
theorem substitutions_ok {n : Nat} {x parts : List String × List Node} (hs : s.Holds text c)
    (hsig : s.token.Significant) (hshift : s.token.kind.shift ms = some (.template :: gs))
    (h : Grammar.loop (Grammar.substitutionRound g) n x s = .ok parts t) :
    ∃ d ts, Runs.LaterAnew text c s t d ts ∧ openAfter ms ts = some (.template :: gs) ∧
      t.token.kind = .templateTail := by
  induction n generalizing c s x ms with
  | zero => cases h
  | succ n ih =>
    obtain ⟨r, u, hround, h⟩ := bind_ok h
    obtain ⟨d, ts, hlater, hopen, hkind⟩ := substitutionRound_ok he hs hsig hshift hround
    cases r with
    | inl y =>
      have hmiddle : u.token.kind.shift (.template :: gs) = some (.template :: gs) := by
        rw [hkind]
        rfl
      obtain ⟨e, us, hlater', hopen', hkind'⟩ := ih hlater.holds hlater.significant hmiddle h
      exact ⟨e, ts ++ us, ⟨hlater'.holds, hlater.reads.append hlater'.reads, hlater'.significant,
        hlater'.depth_eq.trans hlater.depth_eq, hlater'.noIn_eq.trans hlater.noIn_eq⟩,
        openAfter_append hopen hopen', hkind'⟩
    | inr b =>
      cases h
      exact ⟨d, ts, hlater, hopen, hkind⟩

/-- A template without substitutions is one token, and no bracket. -/
theorem templateLiteral (hk : s.token.kind = .templateWhole ∨ s.token.kind = .templateHead) :
    Nests text gs gs s (Grammar.templateLiteral g) := by
  refine ⟨fun c x t hs h => ?_⟩
  obtain ⟨start, _, hpos, h⟩ := bind_ok h
  cases hpos
  obtain ⟨first, _, hcur, h⟩ := bind_ok h
  cases hcur
  split at h
  · case _ hhead =>
    obtain ⟨bound, _, hrounds, h⟩ := bind_ok h
    cases hrounds
    obtain ⟨parts, u, hsub, h⟩ := bind_ok h
    rw [substitutions_eq] at hsub
    have hshift : s.token.kind.shift gs = some (.template :: gs) := by
      rw [hhead]
      rfl
    obtain ⟨d, ts, hlater, hopen, hkind⟩ :=
      substitutions_ok he hs.holds (.of_kind_eq hhead rfl) hshift hsub
    have htail : u.token.kind.shift (.template :: gs) = some gs := by
      rw [hkind]
      rfl
    cases h
    exact ⟨_, ts ++ [u.token], ⟨hlater.holds.taken,
      hlater.reads.append (.single hlater.holds.token hlater.significant), hlater.depth_eq,
      hlater.noIn_eq⟩, openAfter_append hopen (openAfter_single htail)⟩
  · case _ hhead =>
    have hplain : s.token.Plain := .of_kind_eq (hk.resolve_right hhead) rfl
    cases h
    exact ⟨_, _, later_advance hs hplain.significant, openAfter_single (hplain.shift_eq gs)⟩

end Anew

section Words

variable {text : String} {s : State}

-- ---------------------------------------------------------------------------
-- Tokens and names
-- ---------------------------------------------------------------------------

theorem endOfStatement : Nests text [] [] s Grammar.endOfStatement :=
  .accepting rfl rfl (fun _ => .pure) fun _ =>
    .look <| .ite (fun _ => .pure) fun _ => .fail

theorem takeValue (hs : s.token.Plain) : Nests text [] [] s Grammar.takeValue :=
  .look <| .first (.advance hs) fun _ _ => .pure

theorem bindingName : Nests text [] [] s Grammar.bindingName :=
  .look <| .ite (fun h => .takeValue (.of_isBindingName h)) fun _ => .fail

theorem anyName : Nests text [] [] s Grammar.anyName :=
  .look <| .ite (fun h => .takeValue (.of_kind _ h rfl)) fun _ => .fail

theorem identifier : Nests text [] [] s Grammar.identifier :=
  .look <| .first .bindingName fun _ _ => .done

theorem word (hs : s.token.Plain) (form : Form Node) :
    Nests text [] [] s (Grammar.word form) :=
  .look <| .first (.advance hs) fun _ _ => .done

theorem literal (hs : s.token.Plain) (make : String → Literal) :
    Nests text [] [] s (Grammar.literal make) :=
  .look <| .first (.takeValue hs) fun _ _ => .done

theorem sequence {operand : Parser Node} (hoperand : ∀ t, Nests text [] [] t operand) :
    Nests text [] [] s (Grammar.sequence operand) := by
  refine .look <| .first (.separated hoperand) fun es t => ?_
  split
  · exact .pure
  · exact .done

theorem optionalName (isRequired : Bool) :
    Nests text [] [] s (Grammar.optionalName isRequired) :=
  .look <| .ite (fun _ => .first .identifier fun _ _ => .pure) fun _ =>
    .ite (fun _ => .fail) fun _ => .pure

theorem qualifier (word : Keyword) : Nests text [] [] s (Grammar.qualifier word) := by
  refine .look <| .ite (fun h => ?_) fun _ => .pure
  rw [Bool.and_eq_true, decide_eq_true_eq] at h
  exact .first (.advance (.of_kind_eq h.1 rfl)) fun _ _ => .pure

theorem accessorKind : Nests text [] [] s Grammar.accessorKind := by
  refine .look <| .ite (fun h => ?_) fun _ => .ite (fun h => ?_) fun _ => .pure
  · rw [Bool.and_eq_true, decide_eq_true_eq] at h
    exact .first (.advance (.of_kind_eq h.1 rfl)) fun _ _ => .pure
  · rw [Bool.and_eq_true, decide_eq_true_eq] at h
    exact .first (.advance (.of_kind_eq h.1 rfl)) fun _ _ => .pure

theorem memberHead : Nests text [] [] s Grammar.memberHead :=
  .first (.qualifier _) fun _ _ => .first (.accept rfl rfl) fun _ _ =>
    .ite (fun _ => .first .pure fun _ _ => .pure)
      fun _ => .first .accessorKind fun _ _ => .pure

theorem memberName : Nests text [] [] s Grammar.memberName :=
  .look <| .look <| .ite (fun h => .word (.of_kind_eq h rfl) _)
    fun _ => .first .anyName fun _ _ => .done

theorem metaProperty (start : Nat) (object property : String) :
    Nests text [] [] s (Grammar.metaProperty start object property) :=
  .first .anyName fun _ _ => .ite (fun _ => .done) fun _ => .fail

end Words

section Rules

variable {text : String} {s : State} {g : Reading}
  (hg : ∀ phrase t, Nests text [] [] t (g phrase))
include hg

-- ---------------------------------------------------------------------------
-- Keys, patterns and parameters
-- ---------------------------------------------------------------------------

theorem expression : Nests text [] [] s (Grammar.expression g) :=
  .sequence fun _ => hg _ _

theorem propertyKey : Nests text [] [] s (Grammar.propertyKey g) := by
  refine .look ?_
  split
  · case _ hk => exact .first (.takeValue (.of_kind_eq hk rfl)) fun _ _ => .pure
  · case _ hk => exact .first (.takeValue (.of_kind_eq hk rfl)) fun _ _ => .pure
  · case _ hk => exact .first (.takeValue (.of_kind_eq hk rfl)) fun _ _ => .pure
  · case _ hk => exact .first (.takeValue (.of_kind_eq hk rfl)) fun _ _ => .pure
  · case _ hk =>
    have hopen : s.token.kind.shift [] = some [.bracket] := by
      rw [hk]
      rfl
    exact .bind (.take (.of_kind_eq hk rfl) hopen) fun _ _ => .first (.allowIn (hg _ _)) fun _ _ =>
      .bind (.expect rfl rfl) fun _ _ => .pure
  · exact .first .anyName fun _ _ => .pure

omit hg in
theorem withDefault (start : Nat) (target : Node) {value : Parser Node}
    (hvalue : ∀ t, Nests text [] [] t value) :
    Nests text [] [] s (Grammar.withDefault start target value) :=
  .accepting rfl rfl (fun _ => .first (hvalue _) fun _ _ => .done) fun _ => .pure

theorem bindingElement : Nests text [] [] s (Grammar.bindingElement g) :=
  .look <| .first (hg _ _) fun _ _ => .withDefault _ _ fun _ => .allowIn (hg _ _)

theorem restElement : Nests text [] [] s (Grammar.restElement g) :=
  .look <| .bind (.expect rfl rfl) fun _ _ => .first (hg _ _) fun _ _ => .done

theorem patternProperty : Nests text [] [] s (Grammar.patternProperty g) := by
  refine .look <| .look <| .first (propertyKey hg) fun key t =>
    .accepting rfl rfl (fun _ => ?_) fun _ => .ite (fun _ => .look ?_) fun _ => .fail
  · exact .first (bindingElement hg) fun _ _ => .done
  · exact .first (.withDefault _ _ fun _ => .allowIn (hg _ _)) fun _ _ => .done

theorem propertyEntry : Nests text [] [] s (Grammar.propertyEntry g) :=
  .look <| .ite (fun _ => .first (restElement hg) fun _ _ => .pure)
    fun _ => .first (patternProperty hg) fun _ _ => .pure

theorem objectPattern : Nests text [] [] s (Grammar.objectPattern g) :=
  .look <| .bind (.expect rfl rfl) fun _ _ => .first (.listUntil fun _ => propertyEntry hg)
    fun _ _ => .bind (.expect rfl rfl) fun _ _ => .done

theorem elementEntry : Nests text [] [] s (Grammar.elementEntry g) :=
  .accepting rfl rfl (fun _ => .pure) fun _ =>
    .look <| .ite (fun _ => .first (restElement hg) fun _ _ => .pure)
      fun _ => .first (bindingElement hg) fun _ _ => .pure

theorem arrayPattern : Nests text [] [] s (Grammar.arrayPattern g) :=
  .look <| .bind (.expect rfl rfl) fun _ _ => .first (.listUntil fun _ => elementEntry hg)
    fun _ _ => .bind (.expect rfl rfl) fun _ _ => .done

theorem bindingTarget : Nests text [] [] s (Grammar.bindingTarget g) := by
  refine .nested (.look ?_)
  split
  · exact objectPattern hg
  · exact arrayPattern hg
  · exact .identifier

theorem parameterEntry : Nests text [] [] s (Grammar.parameterEntry g) :=
  .look <| .ite (fun _ => .first (restElement hg) fun _ _ => .pure)
    fun _ => .first (bindingElement hg) fun _ _ => .pure

theorem parameters : Nests text [] [] s (Grammar.parameters g) :=
  .bind (.expect rfl rfl) fun _ _ =>
    .first (.allowIn (.listUntil fun _ => parameterEntry hg)) fun _ _ =>
      .bind (.expect rfl rfl) fun _ _ => .pure

-- ---------------------------------------------------------------------------
-- Functions and classes
-- ---------------------------------------------------------------------------

theorem bracedStatement : Nests text [] [] s (Grammar.bracedStatement g) :=
  .look <| .ite (fun _ => .fail) fun _ => hg _ _

theorem bracedStatements : Nests text [] [] s (Grammar.bracedStatements g) :=
  .bind (.expect rfl rfl) fun _ _ => .first (.many fun _ => bracedStatement hg) fun _ _ =>
    .bind (.expect rfl rfl) fun _ _ => .pure

theorem block : Nests text [] [] s (Grammar.block g) :=
  .look <| .first (bracedStatements hg) fun _ _ => .done

theorem functionBody : Nests text [] [] s (Grammar.functionBody g) :=
  .nested (.allowIn (block hg))

theorem functionParts (isAsync nameRequired : Bool) :
    Nests text [] [] s (Grammar.functionParts g isAsync nameRequired) :=
  .bind (.expect rfl rfl) fun _ _ => .first (.accept rfl rfl) fun _ _ =>
    .first (.optionalName _) fun _ _ => .first (parameters hg) fun _ _ =>
      .first (functionBody hg) fun _ _ => .pure

theorem functionDeclaration (start : Nat) (isAsync nameRequired : Bool) :
    Nests text [] [] s (Grammar.functionDeclaration g start isAsync nameRequired) :=
  .first (functionParts hg _ _) fun _ _ => .done

theorem functionExpression (start : Nat) (isAsync : Bool) :
    Nests text [] [] s (Grammar.functionExpression g start isAsync) :=
  .first (functionParts hg _ _) fun _ _ => .done

theorem methodFunction (isAsync isGenerator : Bool) :
    Nests text [] [] s (Grammar.methodFunction g isAsync isGenerator) :=
  .look <| .first (parameters hg) fun _ _ => .first (functionBody hg) fun _ _ => .done

theorem methodOrField (start : Nat) (isStatic : Bool) :
    Nests text [] [] s (Grammar.methodOrField g start isStatic) := by
  refine .first .memberHead fun head t => .first (propertyKey hg) fun key t => ?_
  have hend : ∀ value t, Nests text [] [] t (do
      Grammar.endOfStatement
      Grammar.nodeFrom start (.propertyDefinition key value isStatic)) :=
    fun _ _ => .first .endOfStatement fun _ _ => .done
  refine .look <| .ite (fun _ => ?_) fun _ => .ite (fun _ => .fail) fun _ =>
    .accepting rfl rfl (fun _ => ?_) fun _ => ?_
  · exact .first (methodFunction hg _ _) fun _ _ => .done
  · exact .first (.map (hg _ _) some) hend
  · exact .first .pure hend

theorem classMember : Nests text [] [] s (Grammar.classMember g) := by
  refine .look <| .look <| .ite (fun h => ?_) fun _ => ?_
  · rw [Bool.and_eq_true, decide_eq_true_eq] at h
    exact .first (.advance (.of_kind_eq h.1 rfl)) fun _ _ =>
      .first (bracedStatements hg) fun _ _ => .done
  · exact .first (.qualifier _) fun isStatic _ => methodOrField hg _ isStatic

theorem bracedMember : Nests text [] [] s (Grammar.bracedMember g) :=
  .accepting rfl rfl (fun _ => .pure) fun _ => .look <| .ite (fun _ => .fail) fun _ =>
    .first (classMember hg) fun _ _ => .pure

theorem classBody : Nests text [] [] s (Grammar.classBody g) :=
  .bind (.expect rfl rfl) fun _ _ => .first (.many fun _ => bracedMember hg) fun _ _ =>
    .bind (.expect rfl rfl) fun _ _ => .pure

theorem classParts (nameRequired : Bool) :
    Nests text [] [] s (Grammar.classParts g nameRequired) := by
  refine .bind (.expect rfl rfl) fun _ _ => .first (.optionalName _) fun name _ => ?_
  have hbody : ∀ (superClass : Option Node) t, Nests text [] [] t (do
      let members ← Grammar.nested (Grammar.allowIn (Grammar.classBody g))
      return (⟨name, superClass, members⟩ : ClassParts Node)) :=
    fun _ _ => .first (.nested (.allowIn (classBody hg))) fun _ _ => .pure
  refine .accepting rfl rfl (fun _ => ?_) fun _ => ?_
  · exact .first (.map (hg _ _) some) hbody
  · exact .first .pure hbody

theorem classDeclaration (nameRequired : Bool) :
    Nests text [] [] s (Grammar.classDeclaration g nameRequired) :=
  .look <| .first (classParts hg _) fun _ _ => .done

theorem classExpression : Nests text [] [] s (Grammar.classExpression g) :=
  .look <| .first (classParts hg _) fun _ _ => .done

-- ---------------------------------------------------------------------------
-- Primary expressions
-- ---------------------------------------------------------------------------

theorem template (hk : s.token.kind = .templateWhole ∨ s.token.kind = .templateHead) :
    Nests text [] [] s (Grammar.templateLiteral g) :=
  .templateLiteral (fun _ => expression hg) hk

theorem inParentheses : Nests text [] [] s (Grammar.inParentheses g) :=
  .bind (.expect rfl rfl) fun _ _ => .first (.allowIn (expression hg)) fun _ _ =>
    .bind (.expect rfl rfl) fun _ _ => .pure

theorem parenthesized : Nests text [] [] s (Grammar.parenthesized g) :=
  .look <| .first (inParentheses hg) fun _ _ => .done

theorem spreadable : Nests text [] [] s (Grammar.spreadable g) :=
  .look <| .accepting rfl rfl (fun _ => .first (hg _ _) fun _ _ => .done) fun _ => hg _ _

theorem literalEntry : Nests text [] [] s (Grammar.literalEntry g) :=
  .accepting rfl rfl (fun _ => .pure) fun _ =>
    .first (.allowIn (spreadable hg)) fun _ _ => .pure

theorem arrayLiteral : Nests text [] [] s (Grammar.arrayLiteral g) :=
  .look <| .bind (.expect rfl rfl) fun _ _ => .first (.listUntil fun _ => literalEntry hg)
    fun _ _ => .bind (.expect rfl rfl) fun _ _ => .done

theorem argument :
    Nests text [] [] s (Entry.plain <$> Grammar.allowIn (Grammar.spreadable g)) :=
  .map (.allowIn (spreadable hg)) _

theorem arguments : Nests text [] [] s (Grammar.arguments g) :=
  .bind (.expect rfl rfl) fun _ _ => .first (.listUntil fun _ => argument hg) fun _ _ =>
    .bind (.expect rfl rfl) fun _ _ => .pure

theorem propertyAfter (start : Nat) (head : MemberHead) :
    Nests text [] [] s (Grammar.propertyAfter g start head) := by
  refine .look <| .look <| .first (propertyKey hg) fun key t => .look <|
    .ite (fun _ => ?_) fun _ => .ite (fun _ => .fail) fun _ =>
      .accepting rfl rfl (fun _ => ?_) fun _ => .ite (fun _ => .look ?_) fun _ => .fail
  · exact .first (methodFunction hg _ _) fun _ _ => .done
  · exact .first (hg _ _) fun _ _ => .done
  · exact .first (.withDefault _ _ fun _ => hg _ _) fun _ _ => .done

theorem objectProperty : Nests text [] [] s (Grammar.objectProperty g) :=
  .look <| .accepting rfl rfl (fun _ => .first (hg _ _) fun _ _ => .done)
    fun _ => .first .memberHead fun head _ => propertyAfter hg _ head

theorem literalProperty :
    Nests text [] [] s (Entry.plain <$> Grammar.allowIn (Grammar.objectProperty g)) :=
  .map (.allowIn (objectProperty hg)) _

theorem objectLiteral : Nests text [] [] s (Grammar.objectLiteral g) :=
  .look <| .bind (.expect rfl rfl) fun _ _ => .first (.listUntil fun _ => literalProperty hg)
    fun _ _ => .bind (.expect rfl rfl) fun _ _ => .done

theorem primary : Nests text [] [] s (Grammar.primary g) := by
  refine .look <| .look ?_
  split
  · case _ hk => exact .word (.of_kind_eq hk rfl) _
  · case _ hk => exact .word (.of_kind_eq hk rfl) _
  · case _ hk => exact .word (.of_kind_eq hk rfl) _
  · case _ hk => exact .word (.of_kind_eq hk rfl) _
  · case _ hk => exact .literal (.of_kind_eq hk rfl) _
  · case _ hk => exact .literal (.of_kind_eq hk rfl) _
  · case _ hk => exact .literal (.of_kind_eq hk rfl) _
  · case _ hk => exact .word (.of_kind_eq hk rfl) _
  · exact .regex
  · exact .regex
  · case _ hk => exact template hg (.inl hk)
  · case _ hk => exact template hg (.inr hk)
  · exact parenthesized hg
  · exact arrayLiteral hg
  · exact objectLiteral hg
  · exact functionExpression hg _ _
  · exact classExpression hg
  · case _ hk =>
    refine .ite (fun _ => ?_) fun _ => .identifier
    exact .first (.advance (.of_kind_eq hk rfl)) fun _ _ => functionExpression hg _ _
  · exact .ite (fun _ => .identifier) fun _ => .fail

-- ---------------------------------------------------------------------------
-- Expressions
-- ---------------------------------------------------------------------------

theorem computedMember : Nests text [] [] s (Grammar.computedMember g) :=
  .bind (.expect rfl rfl) fun _ _ => .first (.allowIn (expression hg)) fun _ _ =>
    .bind (.expect rfl rfl) fun _ _ => .pure

theorem optionalAccess (start : Nat) (e : Node) :
    Nests text [] [] s (Grammar.optionalAccess g start e) := by
  refine .look ?_
  split
  · exact .first (arguments hg) fun _ _ => .done
  · exact .first (computedMember hg) fun _ _ => .done
  · exact .first .memberName fun _ _ => .done

/-- A round goes on only after an access, whose first token is known. -/
theorem accessRound (start : Nat) (calls : Bool) (x : Bool × Node) :
    Nests text [] [] s (Grammar.accessRound g start calls x) := by
  refine .look ?_
  split
  · case _ hk =>
    exact .first (.advance (.of_kind_eq hk rfl)) fun _ _ => .first .memberName fun _ _ =>
      .look .pure
  · case _ hk =>
    refine .ite (fun _ => ?_) fun _ => .pure
    exact .first (.advance (.of_kind_eq hk rfl)) fun _ _ =>
      .first (optionalAccess hg _ _) fun _ _ => .pure
  · exact .first (computedMember hg) fun _ _ => .look .pure
  · case _ hk =>
    refine .ite (fun _ => .fail) fun _ => ?_
    exact .first (template hg (.inl hk)) fun _ _ => .look .pure
  · case _ hk =>
    refine .ite (fun _ => .fail) fun _ => ?_
    exact .first (template hg (.inr hk)) fun _ _ => .look .pure
  · refine .ite (fun _ => ?_) fun _ => .pure
    exact .first (arguments hg) fun _ _ => .look .pure
  · exact .pure

theorem accesses {n : Nat} (start : Nat) (calls isOptional : Bool) (e : Node) :
    Nests text [] [] s (Grammar.accesses g start calls n isOptional e) := by
  rw [accesses_eq]
  exact .loop (fun x _ => accessRound hg start calls x) _

theorem construction : Nests text [] [] s (Grammar.construction g) := by
  refine .look <| .bind (.expect rfl rfl) fun _ _ =>
    .accepting rfl rfl (fun _ => .metaProperty _ _ _) fun _ => .look <| .look ?_
  have hrest : ∀ calleeStart start (callee : Node) t, Nests text [] [] t (do
      let callee ← Grammar.accesses g calleeStart false (← Grammar.rounds) false callee
      let values ← if ← Grammar.isAt (.punct .openParen) then Grammar.arguments g
        else Pure.pure []
      Grammar.nodeFrom start (.newExpression callee values)) := by
    refine fun _ _ _ _ => .look <| .first (accesses hg _ _ _ _) fun _ _ =>
      .look <| .ite (fun _ => ?_) fun _ => ?_
    · exact .first (arguments hg) fun _ _ => .done
    · exact .first .pure fun _ _ => .done
  split
  · exact .first (hg _ _) (hrest _ _)
  · case _ hk => exact .first (.word (.of_kind_eq hk rfl) _) (hrest _ _)
  · exact .first (primary hg) (hrest _ _)

theorem importExpression : Nests text [] [] s (Grammar.importExpression g) := by
  refine .look <| .bind (.expect rfl rfl) fun _ _ =>
    .accepting rfl rfl (fun _ => .metaProperty _ _ _) fun _ =>
      .bind (.expect rfl rfl) fun _ _ => .first (.allowIn (hg _ _)) fun source _ => ?_
  have hend : ∀ start t, Nests text [.paren] [] t (do
      Grammar.expect (.punct .closeParen)
      Grammar.nodeFrom start (.importExpression source)) :=
    fun _ _ => .bind (.expect rfl rfl) fun _ _ => .done
  refine .accepting rfl rfl (fun _ => .look <| .ite (fun _ => ?_) fun _ => hend _ _)
    fun _ => hend _ _
  exact .first (.allowIn (hg _ _)) fun _ _ => .first (.accept rfl rfl) fun _ _ => hend _ _

theorem leftHandSide : Nests text [] [] s (Grammar.leftHandSide g) := by
  refine .look <| .look ?_
  have hrest : ∀ start (e : Node) t, Nests text [] [] t (do
      Grammar.accesses g start true (← Grammar.rounds) false e) :=
    fun _ _ _ => .look (accesses hg _ _ _ _)
  split
  · exact .first (construction hg) (hrest _)
  · case _ hk => exact .first (.word (.of_kind_eq hk rfl) _) (hrest _)
  · exact .first (importExpression hg) (hrest _)
  · exact .first (primary hg) (hrest _)

theorem updated : Nests text [] [] s (Grammar.updated g) := by
  refine .look <| .first (leftHandSide hg) fun _ _ => .look <| .ite (fun h => ?_) fun _ => .pure
  rw [Bool.and_eq_true] at h
  exact .first (.advance (.of_kind isUpdateOperator h.1 rfl)) fun _ _ => .done

theorem unary : Nests text [] [] s (Grammar.unary g) := by
  refine .nested <| .look <| .look ?_
  have hoperand : ∀ {s : State} (form : Node → Form Node) start, s.token.Plain →
      Nests text [] [] s (do
        Grammar.advance
        Grammar.nodeFrom start (form (← g .unary))) :=
    fun _ _ hs => .first (.advance hs) fun _ _ => .first (hg _ _) fun _ _ => .done
  refine .ite (fun h => hoperand _ _ (.of_kind isUnaryOperator h rfl)) fun _ =>
    .ite (fun h => hoperand _ _ (.of_kind isUpdateOperator h rfl)) fun _ =>
      .ite (fun h => hoperand _ _ (.of_kind_eq h rfl)) fun _ => updated hg

/-- A round goes on only after an operator that binds. -/
theorem operationRound (start above : Nat) (left : Node) :
    Nests text [] [] s (Grammar.operationRound g start above left) := by
  refine .look <| .look <| .ite (fun h => ?_) fun _ => .pure
  rw [Bool.and_eq_true] at h
  exact .first (.advance (.of_kind (fun k => decide (above < precedence k)) h.1 rfl))
    fun _ _ => .first (hg _ _) fun _ _ => .look .pure

theorem binary (above : Nat) : Nests text [] [] s (Grammar.binary g above) := by
  refine .look <| .first (unary hg) fun left _ => .look ?_
  rw [operations_eq]
  exact .loop (fun x _ => operationRound hg _ above x) _

theorem conditional : Nests text [] [] s (Grammar.conditional g) :=
  .look <| .first (binary hg 0) fun _ _ =>
    .accepting rfl rfl
      (fun _ => .first (.allowIn (hg _ _)) fun _ _ => .bind (.expect rfl rfl) fun _ _ =>
        .first (hg _ _) fun _ _ => .done)
      fun _ => .pure

theorem yieldExpression : Nests text [] [] s (Grammar.yieldExpression g) := by
  have hvalue : ∀ start delegates t, Nests text [] [] t (do
      Grammar.nodeFrom start (.yieldExpression (some (← g .assignment)) delegates)) :=
    fun _ _ _ => .first (hg _ _) fun _ _ => .done
  exact .look <| .bind (.expect rfl rfl) fun _ _ => .look <| .ite (fun _ => .done) fun _ =>
    .accepting rfl rfl (fun _ => hvalue _ _ _) fun _ => .look <|
      .ite (fun _ => hvalue _ _ _) fun _ => .done

theorem arrowBody : Nests text [] [] s (Grammar.arrowBody g) :=
  .look <| .ite (fun _ => functionBody hg) fun _ => hg _ _

theorem arrowEnd (start : Nat) (isAsync : Bool) (params : List Node) :
    Nests text [] [] s (Grammar.arrowEnd g start isAsync params) := by
  have hbody : ∀ t, Nests text [] [] t (do
      Grammar.expect (.punct .arrow)
      let body ← Grammar.arrowBody g
      Grammar.nodeFrom start (.arrowFunction params body isAsync)) :=
    fun _ => .bind (.expect rfl rfl) fun _ _ => .first (arrowBody hg) fun _ _ => .done
  exact .look <| .ite (fun _ => .first .fail fun _ _ => hbody _) fun _ => hbody _

theorem arrowParts (start : Nat) (isAsync : Bool) :
    Nests text [] [] s (Grammar.arrowParts g start isAsync) :=
  .look <| .ite (fun _ => .first (parameters hg) fun _ _ => arrowEnd hg _ _ _)
    fun _ => .first (.map .identifier _) fun _ _ => arrowEnd hg _ _ _

theorem arrowFunction : Nests text [] [] s (Grammar.arrowFunction g) := by
  refine .look <| .look <| .ite (fun h => ?_) fun _ => arrowParts hg _ _
  rw [Bool.and_eq_true, decide_eq_true_eq] at h
  exact .first (.advance (.of_kind_eq h.1 rfl)) fun _ _ => arrowParts hg _ _

theorem assignment : Nests text [] [] s (Grammar.assignment g) := by
  refine .nested <| .look <| .ite (fun _ => yieldExpression hg) fun _ => .look <|
    .ite (fun _ => arrowFunction hg) fun _ => .look <| .first (conditional hg) fun _ _ =>
      .look <| .ite (fun h => ?_) fun _ => .pure
  exact .first (.advance (.of_kind TokenKind.isAssignment h rfl)) fun _ _ =>
    .first (hg _ _) fun _ _ => .done

-- ---------------------------------------------------------------------------
-- Statements
-- ---------------------------------------------------------------------------

theorem declarator : Nests text [] [] s (Grammar.declarator g) :=
  .look <| .first (hg _ _) fun _ _ =>
    .accepting rfl rfl (fun _ => .first (.map (hg _ _) some) fun _ _ => .done)
      fun _ => .first .pure fun _ _ => .done

omit hg in
theorem plain_of_variableKind {t : Token} {kind : VariableKind}
    (h : variableKind? t.kind = some kind) : t.Plain :=
  .of_kind (fun k => (variableKind? k).isSome) (by rw [h]; rfl) rfl

theorem variableDeclaration : Nests text [] [] s (Grammar.variableDeclaration g) := by
  refine .look <| .look ?_
  split
  · exact .fail
  · case _ hk =>
    exact .first (.advance (plain_of_variableKind hk)) fun _ _ =>
      .first (.separated fun _ => declarator hg) fun _ _ => .done

theorem variableStatement : Nests text [] [] s (Grammar.variableStatement g) :=
  .first (.allowIn (variableDeclaration hg)) fun _ _ => .first .endOfStatement fun _ _ => .done

theorem expressionStatement : Nests text [] [] s (Grammar.expressionStatement g) :=
  .look <| .first (.allowIn (.sequence fun _ => assignment hg)) fun _ _ =>
    .first .endOfStatement fun _ _ => .done

theorem ifStatement : Nests text [] [] s (Grammar.ifStatement g) :=
  .look <| .bind (.expect rfl rfl) fun _ _ => .first (inParentheses hg) fun _ _ =>
    .first (hg _ _) fun _ _ =>
      .accepting rfl rfl (fun _ => .first (.map (hg _ _) some) fun _ _ => .done)
        fun _ => .first .pure fun _ _ => .done

theorem whileStatement : Nests text [] [] s (Grammar.whileStatement g) :=
  .look <| .bind (.expect rfl rfl) fun _ _ => .first (inParentheses hg) fun _ _ =>
    .first (hg _ _) fun _ _ => .done

theorem doStatement : Nests text [] [] s (Grammar.doStatement g) :=
  .look <| .bind (.expect rfl rfl) fun _ _ => .first (hg _ _) fun _ _ =>
    .bind (.expect rfl rfl) fun _ _ => .first (inParentheses hg) fun _ _ =>
      .first (.accept rfl rfl) fun _ _ => .done

theorem forFirst : Nests text [] [] s (Grammar.forFirst g) := by
  refine .look ?_
  have hdeclaration : ∀ t, Nests text [] [] t
      (some <$> Grammar.withIn true (Grammar.variableDeclaration g)) :=
    fun _ => .map (.withIn (variableDeclaration hg)) some
  have hexpression : ∀ t, Nests text [] [] t
      (some <$> Grammar.withIn true (Grammar.expression g)) :=
    fun _ => .map (.withIn (expression hg)) some
  split
  · exact .pure
  · exact hdeclaration _
  · exact hdeclaration _
  · exact .ite (fun _ => hdeclaration _) fun _ => hexpression _
  · exact hexpression _

/-- The last clause comes before the parenthesis that closes the head. -/
theorem clauseBefore {gs hs : List Token.Closer} {ending : Punctuator}
    (h : (TokenKind.punct ending).shift gs = some hs) :
    Nests text gs hs s (Grammar.clauseBefore g ending) := by
  refine .look <| .ite (fun _ => .first .pure fun _ _ => ?_) fun _ =>
    .first (.map (.allowIn (expression hg)) some) fun _ _ => ?_
  · exact .bind (.expect rfl h) fun _ _ => .pure
  · exact .bind (.expect rfl h) fun _ _ => .pure

theorem forClauses (start : Nat) (first : Option Node) :
    Nests text [.paren] [] s (Grammar.forClauses g start first) :=
  .bind (.expect rfl rfl) fun _ _ => .bind (clauseBefore hg rfl) fun _ _ =>
    .bind (clauseBefore hg rfl) fun _ _ => .first (hg _ _) fun _ _ => .done

theorem forOf (hs : s.token.Plain) (start : Nat) (isAwait : Bool) (left : Node) :
    Nests text [.paren] [] s (Grammar.forOf g start isAwait left) :=
  .first (.advance hs) fun _ _ => .first (.allowIn (hg _ _)) fun _ _ =>
    .bind (.expect rfl rfl) fun _ _ => .first (hg _ _) fun _ _ => .done

theorem forIn (hs : s.token.Plain) (start : Nat) (left : Node) :
    Nests text [.paren] [] s (Grammar.forIn g start left) :=
  .first (.advance hs) fun _ _ => .first (.allowIn (expression hg)) fun _ _ =>
    .bind (.expect rfl rfl) fun _ _ => .first (hg _ _) fun _ _ => .done

theorem forStatement : Nests text [] [] s (Grammar.forStatement g) := by
  refine .look <| .bind (.expect rfl rfl) fun _ _ => .first (.accept rfl rfl) fun isAwait _ =>
    .bind (.expect rfl rfl) fun _ _ => .first (forFirst hg) fun first _ => .look ?_
  split
  · case _ hk => exact forOf hg (.of_kind_eq hk rfl) _ _ _
  · case _ hk => exact forIn hg (.of_kind_eq hk rfl) _ _
  · exact forClauses hg _ _

theorem returnStatement : Nests text [] [] s (Grammar.returnStatement g) := by
  have hend : ∀ start argument t, Nests text [] [] t (do
      Grammar.endOfStatement
      Grammar.nodeFrom start (.returnStatement argument)) :=
    fun _ _ _ => .first .endOfStatement fun _ _ => .done
  exact .look <| .bind (.expect rfl rfl) fun _ _ => .look <|
    .ite (fun _ => .first .pure (hend _)) fun _ =>
      .first (.map (.allowIn (expression hg)) some) (hend _)

omit hg in
theorem jumpStatement (hs : s.token.Plain) (make : Option String → Form Node) :
    Nests text [] [] s (Grammar.jumpStatement make) := by
  have hend : ∀ start label t, Nests text [] [] t (do
      Grammar.endOfStatement
      Grammar.nodeFrom start (make label)) :=
    fun _ _ _ => .first .endOfStatement fun _ _ => .done
  refine .look <| .first (.advance hs) fun _ _ => .look <| .ite (fun h => ?_) fun _ =>
    .first .pure (hend _)
  rw [Bool.and_eq_true] at h
  exact .first (.map (.takeValue (.of_isBindingName h.1)) some) (hend _)

theorem throwStatement : Nests text [] [] s (Grammar.throwStatement g) := by
  have hvalue : ∀ start t, Nests text [] [] t (do
      let argument ← Grammar.allowIn (Grammar.expression g)
      Grammar.endOfStatement
      Grammar.nodeFrom start (.throwStatement argument)) :=
    fun _ _ => .first (.allowIn (expression hg)) fun _ _ => .first .endOfStatement fun _ _ => .done
  exact .look <| .bind (.expect rfl rfl) fun _ _ => .look <|
    .ite (fun _ => .first (.fail) fun _ _ => hvalue _ _) fun _ => hvalue _ _

theorem catchClause (hs : s.token.Plain) :
    Nests text [] [] s (Grammar.catchClause g) := by
  have hbody : ∀ start param t, Nests text [] [] t (do
      let body ← Grammar.block g
      Grammar.nodeFrom start (.catchClause param body)) :=
    fun _ _ _ => .first (block hg) fun _ _ => .done
  exact .look <| .first (.advance hs) fun _ _ =>
    .accepting rfl rfl
      (fun _ => .first (hg _ _) fun _ _ => .bind (.expect rfl rfl) fun _ _ =>
        .first .pure (hbody _))
      fun _ => .first .pure (hbody _)

theorem tryStatement : Nests text [] [] s (Grammar.tryStatement g) := by
  have hend : ∀ start body (handler finalizer : Option Node) t, Nests text [] [] t (do
      if handler.isNone && finalizer.isNone then Grammar.fail .handlerExpected
      Grammar.nodeFrom start (.tryStatement body handler finalizer)) :=
    fun _ _ _ _ _ => .ite (fun _ => .first (.fail) fun _ _ => .done) fun _ => .done
  have hfinalizer : ∀ start body (handler : Option Node) t, Nests text [] [] t (do
      let finalizer ← if ← Grammar.accept (.word .finallyKw) then some <$> Grammar.block g
        else Pure.pure none
      if handler.isNone && finalizer.isNone then Grammar.fail .handlerExpected
      Grammar.nodeFrom start (.tryStatement body handler finalizer)) :=
    fun _ _ _ _ => .accepting rfl rfl (fun _ => .first (.map (block hg) some) (hend _ _ _))
      fun _ => .first .pure (hend _ _ _)
  refine .look <| .bind (.expect rfl rfl) fun _ _ => .first (block hg) fun _ _ => .look <|
    .ite (fun h => ?_) fun _ => .first .pure (hfinalizer _ _)
  exact .first (.map (catchClause hg (.of_kind_eq (of_decide_eq_true h) rfl)) some)
    (hfinalizer _ _)

theorem caseTest : Nests text [] [] s (Grammar.caseTest g) := by
  refine .look ?_
  split
  · case _ hk =>
    exact .first (.advance (.of_kind_eq hk rfl)) fun _ _ =>
      .map (.allowIn (expression hg)) some
  · case _ hk => exact .first (.advance (.of_kind_eq hk rfl)) fun _ _ => .pure
  · exact .fail

theorem switchCase : Nests text [] [] s (Grammar.switchCase g) :=
  .look <| .first (caseTest hg) fun _ _ => .bind (.expect rfl rfl) fun _ _ =>
    .first (.many fun _ => hg _ _) fun _ _ => .done

theorem switchStatement : Nests text [] [] s (Grammar.switchStatement g) :=
  .look <| .bind (.expect rfl rfl) fun _ _ => .first (inParentheses hg) fun _ _ =>
    .bind (.expect rfl rfl) fun _ _ => .first (.many fun _ => switchCase hg) fun _ _ =>
      .bind (.expect rfl rfl) fun _ _ => .done

theorem withStatement : Nests text [] [] s (Grammar.withStatement g) :=
  .look <| .bind (.expect rfl rfl) fun _ _ => .first (inParentheses hg) fun _ _ =>
    .first (hg _ _) fun _ _ => .done

theorem labeledStatement : Nests text [] [] s (Grammar.labeledStatement g) :=
  .look <| .first .bindingName fun _ _ => .bind (.expect rfl rfl) fun _ _ =>
    .first (hg _ _) fun _ _ => .done

omit hg in
theorem debuggerStatement (hs : s.token.Plain) :
    Nests text [] [] s Grammar.debuggerStatement :=
  .look <| .first (.advance hs) fun _ _ => .first .endOfStatement fun _ _ => .done

theorem otherStatement (t : Token) : Nests text [] [] s (Grammar.otherStatement g t) :=
  .ite (fun _ => labeledStatement hg) fun _ => expressionStatement hg

theorem statement : Nests text [] [] s (Grammar.statement g) := by
  refine .nested (.look ?_)
  split
  · exact block hg
  · case _ hk => exact .word (.of_kind_eq hk rfl) _
  · exact variableStatement hg
  · exact variableStatement hg
  · exact .ite (fun _ => variableStatement hg) fun _ => otherStatement hg _
  · exact functionDeclaration hg _ _ _
  · case _ hk =>
    refine .ite (fun _ => ?_) fun _ => otherStatement hg _
    exact .first (.advance (.of_kind_eq hk rfl)) fun _ _ => functionDeclaration hg _ _ _
  · exact classDeclaration hg _
  · exact ifStatement hg
  · exact forStatement hg
  · exact whileStatement hg
  · exact doStatement hg
  · exact returnStatement hg
  · case _ hk => exact .jumpStatement (.of_kind_eq hk rfl) _
  · case _ hk => exact .jumpStatement (.of_kind_eq hk rfl) _
  · exact throwStatement hg
  · exact tryStatement hg
  · exact switchStatement hg
  · exact withStatement hg
  · case _ hk => exact .debuggerStatement (.of_kind_eq hk rfl)
  · exact .ite (fun _ => otherStatement hg _) fun _ => .fail
  · exact .fail
  · exact otherStatement hg _

-- ---------------------------------------------------------------------------
-- The grammar
-- ---------------------------------------------------------------------------

theorem rule (phrase : Phrase) : Nests text [] [] s (Grammar.rule g phrase) := by
  cases phrase with
  | assignment => exact assignment hg
  | unary => exact unary hg
  | binary above => exact binary hg above
  | construction => exact construction hg
  | leftHandSide => exact leftHandSide hg
  | statement => exact statement hg
  | bindingTarget => exact bindingTarget hg

omit hg in
theorem read (k : Nat) (phrase : Phrase) : Nests text [] [] s (Grammar.read k phrase) := by
  induction k generalizing phrase s with
  | zero => exact ⟨fun _ _ _ _ hx => nomatch hx⟩
  | succ k ih => exact ⟨(rule (fun phrase _ => ih phrase) phrase).ok⟩

end Rules

end Nests

end Grammar

end ModuleBundler
