import ModuleBundler.Proofs.EchoedRules
import ModuleBundler.Proofs.PatternParts

/-!
# ModuleBundler — patterns read as literals

An array or object pattern is also an array or object literal: its parts are assignments, its
rests are spreads and its defaults are assigned values. Where a text is read as a pattern and a
framed text as a literal, the literal turns into the pattern, so many bytes later.

The two readings take the same tokens. What the grammar has for literals beyond this is not
there: behind each target stands a comma, a bracket or an equals sign, and with none of them an
operand goes on, nor a method or an accessor.

* `CoversTarget` — what is read as a target is read as an operand as well.
* `Entry.Covers`, `listUntil_covers` — entries and lists of patterns and literals.
* `target_covers` — the induction over the nesting of patterns.
* `pattern_covers` — a pattern up to its last bracket, whatever is behind it.
-/

namespace ModuleBundler

variable {F : Frame}

namespace Grammar

variable {s s' t t' u' : State} {n m : Nat} {x x' e e' : Node}

-- ---------------------------------------------------------------------------
-- States in which `in` is an operator
-- ---------------------------------------------------------------------------

theorem read_noIn_eq {phrase : Phrase} (h : read n phrase s = .ok x t) : t.noIn = s.noIn :=
  (Echo.read (F := .declaration) n n phrase s s).noIn_eq h

theorem allowIn_read_ok {phrase : Phrase} (hin : s.noIn = false)
    (h : allowIn (read n phrase) s = .ok x t) : read n phrase s = .ok x t := by
  obtain ⟨u, hu, rfl⟩ := allowIn_ok hin h
  rw [State.setNoIn_eq ((read_noIn_eq hu).trans hin)]
  exact hu

theorem State.Framed.allowIn (h : t.Framed F u') (hin : t.noIn = false) :
    t.Framed F { u' with noIn := false } := by
  have h := h.setNoIn false
  rwa [State.setNoIn_eq hin] at h

-- ---------------------------------------------------------------------------
-- Targets
-- ---------------------------------------------------------------------------

/-- A token that ends an operand is no name. -/
theorem isBindingName_of_ends {u : Token} (h : u.kind.endsTarget = true) :
    u.isBindingName = false := by
  unfold Token.isBindingName
  generalize u.kind = k at h
  unfold TokenKind.endsTarget at h
  split at h <;> first | rfl | exact absurd h Bool.false_ne_true

theorem beginsKey_of_ends {u : Token} (h : u.kind.endsTarget = true) :
    u.beginsKey = false ∧ u.kind ≠ .punct .star := by
  unfold Token.beginsKey
  generalize u.kind = k at h
  unfold TokenKind.endsTarget at h
  split at h <;> first | exact absurd h Bool.false_ne_true | decide

theorem continuesWith_of_ends {u : Token} {k : TokenKind} (h : u.next.kind.endsTarget = true)
    (hk : k.endsTarget = false) : u.continuesWith k = false := by
  have hne : u.next.kind ≠ k := by
    rintro rfl
    exact Bool.noConfusion (h.symm.trans hk)
  simp [Token.continuesWith, hne]

/-- A name at which an operand ends begins no arrow function, and neither does a bracket. -/
theorem beginsArrowFunction_of_ends {u : Token} (hparen : u.kind ≠ .punct .openParen)
    (h : u.isBindingName = true → u.next.kind.endsTarget = true) (bound : Nat) :
    u.beginsArrowFunction bound = false := by
  have hnot : ∀ k : TokenKind, k.endsTarget = false → u.isBindingName = true →
      u.next.kind ≠ k := by
    rintro k hk hname rfl
    exact Bool.noConfusion (hk.symm.trans (h hname))
  unfold Token.beginsArrowFunction Token.continuesWith
  split
  · exact absurd ‹_› hparen
  · case _ hasync =>
    have hname : u.isBindingName = true := by
      unfold Token.isBindingName
      rw [hasync]
      rfl
    have hnext := isBindingName_of_ends (h hname)
    simp [hnot (.punct .arrow) rfl hname, hnot (.punct .openParen) rfl hname, hnext]
  · by_cases hname : u.isBindingName = true
    · simp [hnot (.punct .arrow) rfl hname]
    · simp [hname]

theorem precedesOperand_of_isBindingName {u : Token} (h : u.isBindingName = true) :
    u.kind.precedesOperand = false ∧ u.kind ≠ .word .yieldKw ∧ u.kind ≠ .punct .openParen := by
  unfold Token.isBindingName at h
  generalize u.kind = k at h
  cases k with
  | word w => cases w <;> first | exact absurd h Bool.false_ne_true | decide
  | name => decide
  | _ => exact absurd h Bool.false_ne_true

/-- How an operand begins that may be a target: with no operator before it, and neither with
`yield` nor as an arrow function. -/
structure State.BeginsOperand (s : State) : Prop where
  significant : s.token.Significant
  noYield : s.token.kind ≠ .word .yieldKw
  noArrow : s.token.beginsArrowFunction (s.ahead + 1) = false
  noOperator : s.token.kind.precedesOperand = false

theorem State.BeginsOperand.framed (h : s.BeginsOperand) (hs : s.Framed F s') :
    s'.BeginsOperand := by
  have hkind := hs.kind_eq h.significant
  constructor
  case significant => rw [hs.token h.significant]; exact ⟨h.significant.known, h.significant.more⟩
  case noYield => rw [hkind]; exact h.noYield
  case noArrow => rw [hs.beginsArrowFunction_eq h.significant]; exact h.noArrow
  case noOperator => rw [hkind]; exact h.noOperator

/-- A bracket that opens a pattern begins an operand. -/
theorem State.beginsOperand_of_bracket
    (h : s.token.kind = .punct .openBrace ∨ s.token.kind = .punct .openBracket) :
    s.BeginsOperand := by
  have hname : s.token.isBindingName = false := by
    unfold Token.isBindingName
    rcases h with h | h <;> rw [h] <;> rfl
  have harrow := beginsArrowFunction_of_ends (u := s.token)
    (by rcases h with h | h <;> rw [h] <;> decide) (by simp [hname]) (s.ahead + 1)
  rcases h with h | h
  all_goals exact ⟨.of_kind_eq h rfl, by rw [h]; decide, harrow, by rw [h]; rfl⟩

/-- A name behind which an operand ends is one. -/
theorem State.beginsOperand_of_name (h : s.token.isBindingName = true)
    (hnext : s.token.next.kind.endsTarget = true) : s.BeginsOperand := by
  obtain ⟨hprecedes, hyield, hparen⟩ := precedesOperand_of_isBindingName h
  exact ⟨.of_isBindingName h, hyield, beginsArrowFunction_of_ends hparen (fun _ => hnext) _,
    hprecedes⟩

theorem target_begins (h : read n .bindingTarget s = .ok x t)
    (ht : t.token.kind.endsTarget = true) : s.BeginsOperand := by
  cases n with
  | zero => cases h
  | succ n =>
    obtain ⟨u, rfl, ⟨hk, -⟩ | ⟨hk, -⟩ | hx⟩ := bindingTarget_ok h
    · exact State.beginsOperand_of_bracket (.inl hk)
    · exact State.beginsOperand_of_bracket (.inr hk)
    · obtain ⟨hname, rfl, -⟩ := identifier_ok hx
      exact State.beginsOperand_of_name hname ht

-- ---------------------------------------------------------------------------
-- Lists
-- ---------------------------------------------------------------------------

section Lists

variable {α β γ : Type}

/-- Behind an entry stands a comma or the closing token, and behind the last one only this. An
entry that took its comma may be followed by anything. -/
def Entry.Ends (closing : Punctuator) : Entry α → TokenKind → Prop
  | .plain _, k => k = .punct .comma ∨ k = .punct closing
  | .whole _, _ => True
  | .last _, k => k = .punct closing

/-- An entry of a pattern and the one of a literal that turns into it. -/
inductive Entry.Covers (R : α → β → Prop) : Entry α → Entry β → Prop
  | plain {a : α} {b : β} (h : R a b) : Covers R (.plain a) (.plain b)
  | whole {a : α} {b : β} (h : R a b) : Covers R (.whole a) (.whole b)
  | last {a : α} {b : β} (h : R a b) : Covers R (.last a) (.plain b)

/-- The list of a pattern ends with its last entry, and the one of a literal goes on to the
closing token, which stands there already. -/
theorem listRounds_cover {closing : Punctuator} {entry : Parser (Entry α)}
    {entry' : Parser (Entry β)} {ψ : α → α} {φ : α → γ} {φ' : β → γ}
    (hecho : ∀ s s', Echo F s s' entry entry (Entry.map ψ))
    (hentry : ∀ {s s' t t' : State} {e : Entry α} {e' : Entry β}, s.Framed F s' →
      s.noIn = false → entry s = .ok e t → entry' s' = .ok e' t' → e.Ends closing t.token.kind →
        e.Covers (fun a b => φ' b = φ a) e' ∧ t.Framed F t')
    {acc as : List α} {acc' as' : List β} (hacc : acc'.map φ' = acc.map φ) (hs : s.Framed F s')
    (hin : s.noIn = false) (h : loop (listRound closing entry) n acc s = .ok as t)
    (h' : loop (listRound closing entry') m acc' s' = .ok as' t')
    (ht : t.token.kind = .punct closing) (hclosing : (TokenKind.punct closing).isSignificant) :
    as'.map φ' = as.map φ ∧ t.Framed F t' := by
  induction n generalizing m acc acc' s s' with
  | zero => cases h
  | succ n ih =>
    obtain ⟨m, rfl⟩ : ∃ k, m = k + 1 := by
      refine Nat.exists_eq_succ_of_ne_zero ?_
      rintro rfl
      cases h'
    have hloop : Echo F s s' (loop (listRound closing entry) (n + 1) acc) _ _ :=
      .loop (fun acc _ _ => .listRound hecho acc) (n + 1) 0 acc
    have hsig : s.token.Significant := hloop.lasts h (.of_kind_eq ht hclosing)
    have hkind := hs.kind_eq hsig
    by_cases hk : s.token.kind = .punct closing
    · obtain ⟨rfl, rfl⟩ := listRounds_closed h hk
      obtain ⟨rfl, rfl⟩ := listRounds_closed h' (hkind.trans hk)
      exact ⟨by simp [hacc], hs⟩
    obtain ⟨e, u, he, hrest⟩ := listRounds_more h hk
    obtain ⟨e', u', he', hrest'⟩ := listRounds_more h' fun h => hk (hkind.symm.trans h)
    have hkept := ((hecho s s').noIn_eq he).trans hin
    cases e with
    | plain a =>
      have hends : u.token.kind = .punct .comma ∨ u.token.kind = .punct closing :=
        hrest.elim (fun h => .inr h.1) fun h => .inl h.2.1
      have husig : u.token.Significant :=
        hends.elim (fun h => .of_kind_eq h rfl) fun h => .of_kind_eq h hclosing
      obtain ⟨hcovers, hframed⟩ := hentry hs hin he he' hends
      cases hcovers with | @plain _ b hab =>
      dsimp only at hrest'
      rw [hframed.kind_eq husig] at hrest'
      have hacc : (b :: acc').map φ' = (a :: acc).map φ := by simp [hab, hacc]
      rcases hrest with ⟨hclose, hrest⟩ | ⟨hclose, -, hrest⟩
      · obtain ⟨-, hrest'⟩ := hrest'.resolve_right fun h => h.1 hclose
        exact ih hacc hframed hkept hrest hrest'
      · obtain ⟨-, -, hrest'⟩ := hrest'.resolve_left fun h => hclose h.1
        exact ih hacc (hframed.taken husig) hkept hrest hrest'
    | whole a =>
      obtain ⟨hcovers, hframed⟩ := hentry hs hin he he' trivial
      cases hcovers with | @whole _ b hab =>
      exact ih (by simp [hab, hacc]) hframed hkept hrest hrest'
    | last a =>
      obtain ⟨rfl, rfl⟩ := hrest
      obtain ⟨hcovers, hframed⟩ := hentry hs hin he he' ht
      have hclose := (hframed.kind_eq (.of_kind_eq ht hclosing)).trans ht
      cases hcovers with | @last _ b hab =>
      -- The literal has one more round, which finds the closing token.
      obtain ⟨-, hrest'⟩ := hrest'.resolve_right fun h => h.1 hclose
      obtain ⟨rfl, rfl⟩ := listRounds_closed hrest' hclose
      exact ⟨by simp [hab, hacc], hframed⟩

theorem listUntil_covers {closing : Punctuator} {entry : Parser (Entry α)}
    {entry' : Parser (Entry β)} {ψ : α → α} {φ : α → γ} {φ' : β → γ}
    (hecho : ∀ s s', Echo F s s' entry entry (Entry.map ψ))
    (hentry : ∀ {s s' t t' : State} {e : Entry α} {e' : Entry β}, s.Framed F s' →
      s.noIn = false → entry s = .ok e t → entry' s' = .ok e' t' → e.Ends closing t.token.kind →
        e.Covers (fun a b => φ' b = φ a) e' ∧ t.Framed F t')
    {as : List α} {as' : List β} (hs : s.Framed F s') (hin : s.noIn = false)
    (h : listUntil closing entry s = .ok as t) (h' : listUntil closing entry' s' = .ok as' t')
    (ht : t.token.kind = .punct closing) (hclosing : (TokenKind.punct closing).isSignificant) :
    as'.map φ' = as.map φ ∧ t.Framed F t' := by
  obtain ⟨n, _, hrounds, h⟩ := bind_ok h
  cases hrounds
  obtain ⟨m, _, hrounds, h'⟩ := bind_ok h'
  cases hrounds
  rw [listUntil_go_eq] at h h'
  exact listRounds_cover hecho hentry rfl hs hin h h' ht hclosing

end Lists

-- ---------------------------------------------------------------------------
-- Elements
-- ---------------------------------------------------------------------------

/-- What is read as a target on a text is read as an operand on the framed one, and the operand
turns into the target. -/
def CoversTarget (F : Frame) (n : Nat) : Prop :=
  ∀ ⦃m : Nat⦄ ⦃s s' t t' : State⦄ ⦃x x' : Node⦄, s.Framed F s' → s.noIn = false →
    read n .bindingTarget s = .ok x t → conditional (read m) s' = .ok x' t' →
      t.token.kind.endsTarget = true → x'.toTarget = x.shift F.width ∧ t.Framed F t'

/-- A name with a default is an assignment to the name. -/
theorem shorthand_covers {name : String} {start : Nat} (hs : s.Framed F s') (hin : s.noIn = false)
    (h : withDefault start (.mk ⟨start, s.lastStop⟩ (.identifier name))
      (allowIn (read n .assignment)) s = .ok e t)
    (h' : withDefault (start + F.width) (.mk ⟨start + F.width, s'.lastStop⟩ (.identifier name))
      (read m .assignment) s' = .ok e' t') (ht : t.token.kind.endsTarget = true) :
    e'.toTarget = e.shift F.width ∧ t.Framed F t' := by
  rcases withDefault_ok h with ⟨hassign, right, hright, rfl⟩ | ⟨hassign, rfl, rfl⟩
  · have hsig : s.token.Significant := .of_kind_eq hassign rfl
    obtain ⟨-, right', hright', rfl⟩ := (withDefault_ok h').resolve_right fun h =>
      h.1 ((hs.kind_eq hsig).trans hassign)
    obtain ⟨rfl, hend⟩ := (Echo.read n m .assignment _ _).agrees (hs.taken hsig)
      (allowIn_read_ok hin hright) hright' (.of_endsTarget ht)
    refine ⟨?_, hend⟩
    simp only [Node.toTarget, Node.shift_mk, Form.shift, hs.lastStop, hend.lastStop]
    rfl
  · obtain ⟨-, rfl, rfl⟩ := (withDefault_ok h').resolve_left fun h =>
      hassign ((hs.kind_eq (.of_endsTarget ht)).symm.trans h.1)
    refine ⟨?_, hs⟩
    simp only [Node.toTarget, Node.shift_mk, Form.shift, hs.lastStop]
    rfl

/-- Nothing stands before a key that a colon, an equals sign or the end of a property follows. -/
theorem propertyAfter_of_key {g g' : Reading} {key : PropertyKey Node} {u : State}
    (hs : s.Framed F s') (hsig : s.token.Significant) (hkey : propertyKey g s = .ok key u)
    (hu : u.token.kind = .punct .colon ∨ u.token.kind.endsTarget = true)
    (h' : objectProperty g' s' = .ok e' t') (hdots : s.token.kind ≠ .punct .ellipsis) :
    propertyAfter g' s'.token.start.offset .none s' = .ok e' t' := by
  have hkind := hs.kind_eq hsig
  have husig : u.token.Significant := hu.elim (fun h => .of_kind_eq h rfl) .of_endsTarget
  have hquiet : u.token.beginsKey = false ∧ u.token.kind ≠ .punct .star := by
    rcases hu with hcolon | hends
    · simp [Token.beginsKey, hcolon, TokenKind.isNameOrKeyword]
    · exact beginsKey_of_ends hends
  obtain ⟨hno, -⟩ | ⟨-, hrest⟩ := spread_ok
    (q := fun start => memberHead >>= fun head => propertyAfter g' start head) h'
  · exact absurd (hkind.symm.trans hno) hdots
  obtain ⟨head, v', hhead, hafter⟩ := bind_ok hrest
  obtain ⟨hstar, hword⟩ := propertyKey_ok hkey
  have hnext : ∀ w, s'.token.kind = .word w →
      s'.token.next.beginsKey = false ∧ s'.token.next.kind ≠ .punct .star := by
    intro w hw
    have htoken : s.token.next = u.token := by
      rw [hword w (hkind.symm.trans hw)]
      rfl
    rw [hs.token hsig, Token.next_within (hs.pos hsig) (htoken ▸ husig), htoken]
    exact hquiet
  obtain ⟨rfl, rfl⟩ := memberHead_ok hhead (by rwa [hkind]) hnext
  exact hafter

section Elements

variable (hcover : CoversTarget F n) (hs : s.Framed F s') (hin : s.noIn = false)
include hcover hs hin

/-- An assignment where a target is read: the target alone, or one that is assigned to. -/
theorem assignment_covers (hx : read n .bindingTarget s = .ok x t)
    (h : read m .assignment s' = .ok e' u') (ht : t.token.kind.endsTarget = true) :
    t.token.kind ≠ .punct .assign ∧ e'.toTarget = x.shift F.width ∧ t.Framed F u' ∨
      t.token.kind = .punct .assign ∧ ∃ k v' right w', t.Framed F v' ∧
        read k .assignment v'.taken = .ok right w' ∧
        e' = .mk ⟨s.token.start.offset + F.width, w'.lastStop⟩
          (.assignmentExpression (.punct .assign) (x.shift F.width) right) ∧
        u' = { w' with depth := w'.depth - 1 } := by
  have hbegins := target_begins hx ht
  have hbegins' := hbegins.framed hs
  cases m with
  | zero => cases h
  | succ m =>
    obtain ⟨left, v', hleft, hrest⟩ := assignment_ok h hbegins'.noYield hbegins'.noArrow
    obtain ⟨htarget, hframed⟩ :=
      hcover (hs.setDepth s.depth (s'.depth + 1)) hin hx hleft ht
    have htsig : t.token.Significant := .of_endsTarget ht
    rw [hframed.kind_eq htsig] at hrest
    by_cases hassign : t.token.kind = .punct .assign
    · rw [hassign, if_pos rfl, htarget, hs.token hbegins.significant] at hrest
      obtain ⟨-, right, w', hright, rfl, rfl⟩ :=
        hrest.resolve_left fun h => Bool.noConfusion h.1
      exact .inr ⟨hassign, m, v', right, w', hframed, hright, rfl, rfl⟩
    · obtain ⟨-, rfl, rfl⟩ := hrest.resolve_right fun h =>
        Bool.noConfusion (h.1.symm.trans (TokenKind.isAssignment_of_endsOperand
          (TokenKind.endsOperand_of_endsTarget ht) hassign))
      exact .inl ⟨hassign, htarget, hframed.setDepth _ _⟩

/-- A target with its default is an assignment. -/
theorem bindingElement_covers (h : bindingElement (read n) s = .ok e t)
    (h' : read m .assignment s' = .ok e' t') (ht : t.token.kind.endsTarget = true) :
    e'.toTarget = e.shift F.width ∧ t.Framed F t' := by
  obtain ⟨start, _, hpos, h⟩ := bind_ok h
  cases hpos
  obtain ⟨x, u, hx, h⟩ := bind_ok h
  have hkept := (read_noIn_eq hx).trans hin
  rcases withDefault_ok h with ⟨hassign, ⟨right, hright, rfl⟩⟩ | ⟨hassign, rfl, rfl⟩
  · obtain ⟨hno, -⟩ | ⟨-, k, v', right', w', hframed, hright', rfl, rfl⟩ :=
      assignment_covers hcover hs hin hx h' (by rw [hassign]; rfl)
    · exact absurd hassign hno
    have husig : u.token.Significant := .of_kind_eq hassign rfl
    obtain ⟨rfl, hend⟩ := (Echo.read n k .assignment _ _).agrees (hframed.taken husig)
      (allowIn_read_ok hkept hright) hright' (.of_endsTarget ht)
    refine ⟨?_, hend.setDepth _ _⟩
    rw [Node.toTarget, Node.toTarget_shift, toTarget_of_target hx, Node.shift_mk, hend.lastStop]
    rfl
  · obtain ⟨-, htarget, hframed⟩ | ⟨hno, -⟩ := assignment_covers hcover hs hin hx h' ht
    · exact ⟨htarget, hframed⟩
    · exact absurd hno hassign

/-- A rest is a spread. -/
theorem restElement_covers (h : restElement (read n) s = .ok e t)
    (hx' : read m .assignment s'.taken = .ok x' t') (ht : t.token.kind.endsTarget = true)
    (hassign : t.token.kind ≠ .punct .assign) :
    Node.toTarget (.mk ⟨s'.token.start.offset, t'.lastStop⟩ (.spreadElement x')) =
      e.shift F.width ∧ t.Framed F t' := by
  obtain ⟨start, _, hpos, h⟩ := bind_ok h
  cases hpos
  obtain ⟨_, v, hexpect, h⟩ := bind_ok h
  obtain ⟨hdots, rfl⟩ := expect_ok hexpect
  obtain ⟨x, u, hx, h⟩ := bind_ok h
  cases h
  have hsig : s.token.Significant := .of_kind_eq hdots rfl
  obtain ⟨-, htarget, hframed⟩ | ⟨hno, -⟩ :=
    assignment_covers hcover (hs.taken hsig) hin hx hx' ht
  · refine ⟨?_, hframed⟩
    rw [Node.toTarget, htarget, Node.shift_mk, hframed.lastStop, hs.token hsig]
    rfl
  · exact absurd hno hassign

/-- An element of an array pattern is one of an array literal. -/
theorem elementEntry_covers {e e' : Entry (Option Node)}
    (h : elementEntry (read n) s = .ok e t) (h' : literalEntry (read m) s' = .ok e' t')
    (hends : e.Ends .closeBracket t.token.kind) :
    e.Covers (fun a b => b.map Node.toTarget = a.map (Node.shift F.width)) e' ∧
      t.Framed F t' := by
  have hecho : Echo F s s' (elementEntry (read n)) _ _ := .elementEntry fun p => Echo.read n n p
  have hkept := (hecho.noIn_eq h).trans hin
  have hlasts := hecho.lasts h
  rcases elementEntry_ok h with
    ⟨hcomma, rfl, rfl⟩ | ⟨hdots, x, hx, rfl⟩ | ⟨hcomma, hdots, x, hx, rfl⟩
  · have hsig : s.token.Significant := .of_kind_eq hcomma rfl
    obtain ⟨-, rfl, rfl⟩ := (literalEntry_ok (hs.noIn.trans hin) h').resolve_right fun h =>
      h.1 ((hs.kind_eq hsig).trans hcomma)
    exact ⟨.whole rfl, hs.taken hsig⟩
  · have hkind := (hs.kind_eq (.of_kind_eq hdots rfl)).trans hdots
    have hclose : t.token.kind = .punct .closeBracket := hends
    obtain ⟨hcomma, -⟩ | ⟨-, y, u, hy, rfl, rfl⟩ := literalEntry_ok (hs.noIn.trans hin) h'
    · cases hkind.symm.trans hcomma
    obtain ⟨-, z, hz, rfl⟩ | ⟨hno, -⟩ := spread_ok (q := fun _ => read m .assignment) hy
    · obtain ⟨htarget, hframed⟩ := restElement_covers hcover hs hin hx hz
        (by rw [hclose]; rfl) (by rw [hclose]; decide)
      exact ⟨.last (congrArg some htarget), hframed.allowIn hkept⟩
    · exact absurd hkind hno
  · have ht : t.token.kind.endsTarget = true := by
      rcases hends with h | h <;> rw [h] <;> rfl
    have hkind := hs.kind_eq (hlasts (.of_endsTarget ht))
    obtain ⟨hno, -⟩ | ⟨-, y, u, hy, rfl, rfl⟩ := literalEntry_ok (hs.noIn.trans hin) h'
    · exact absurd (hkind.symm.trans hno) hcomma
    obtain ⟨hno, -⟩ | ⟨-, hy⟩ := spread_ok (q := fun _ => read m .assignment) hy
    · exact absurd (hkind.symm.trans hno) hdots
    · obtain ⟨htarget, hframed⟩ := bindingElement_covers hcover hs hin hx hy ht
      exact ⟨.plain (congrArg some htarget), hframed.allowIn hkept⟩

/-- A property of an object pattern is one of an object literal. -/
theorem patternProperty_covers (h : patternProperty (read n) s = .ok e t)
    (h' : objectProperty (read m) s' = .ok e' t') (hdots : s.token.kind ≠ .punct .ellipsis)
    (ht : t.token.kind.endsTarget = true) :
    e'.toTarget = e.shift F.width ∧ t.Framed F t' := by
  have hecho : Echo F s s' (patternProperty (read n)) _ _ :=
    .patternProperty fun p => Echo.read n n p
  have hsig : s.token.Significant := hecho.lasts h (.of_endsTarget ht)
  obtain ⟨key, u, hkey, hcases⟩ := patternProperty_ok h
  -- Behind the key stands a colon, an equals sign or what ends the property.
  have hu : u.token.kind = .punct .colon ∨ u.token.kind.endsTarget = true := by
    rcases hcases with ⟨hcolon, -⟩ | ⟨-, value, hvalue, -⟩
    · exact .inl hcolon
    · rcases withDefault_ok hvalue with ⟨hassign, -⟩ | ⟨-, -, rfl⟩
      · exact .inr (by rw [hassign]; rfl)
      · exact .inr ht
  have husig : u.token.Significant := hu.elim (fun h => .of_kind_eq h rfl) .of_endsTarget
  have hafter := propertyAfter_of_key hs hsig hkey hu h' hdots
  obtain ⟨key', w', hkey', hcases'⟩ := propertyAfter_ok rfl hafter
  have hecho : Echo F s s' (propertyKey (read n)) _ _ := .propertyKey fun p => Echo.read n m p
  obtain ⟨rfl, hframed⟩ := hecho.agrees hs hkey hkey' husig
  have hkept := (hecho.noIn_eq hkey).trans hin
  rw [hframed.kind_eq husig, hs.token hsig] at hcases'
  have hcases' := hcases'.resolve_left fun hparen => by simp [hparen, TokenKind.endsTarget] at hu
  have hvalues : ∃ value value' shorthand, value'.toTarget = value.shift F.width ∧
      t.Framed F t' ∧
      e = .mk ⟨s.token.start.offset, t.lastStop⟩ (.property key value .init shorthand) ∧
      e' = .mk ⟨s.token.start.offset + F.width, t'.lastStop⟩
        (.property (key.map (Node.shift F.width)) value' .init shorthand) := by
    rcases hcases with ⟨hcolon, value, hvalue, rfl⟩ | ⟨hcolon, value, hvalue, rfl⟩
    · obtain ⟨-, value', hvalue', rfl⟩ := hcases'.resolve_right fun h => h.1 hcolon
      obtain ⟨htarget, hend⟩ :=
        bindingElement_covers hcover (hframed.taken husig) hkept hvalue hvalue' ht
      exact ⟨value, value', false, htarget, hend, rfl, rfl⟩
    · obtain ⟨-, value', hvalue', rfl⟩ := hcases'.resolve_left fun h => hcolon h.1
      obtain ⟨htarget, hend⟩ := shorthand_covers hframed hkept hvalue hvalue' ht
      exact ⟨value, value', true, htarget, hend, rfl, rfl⟩
  obtain ⟨value, value', shorthand, htarget, hend, rfl, rfl⟩ := hvalues
  refine ⟨?_, hend⟩
  rw [Node.toTarget, htarget, Node.shift_mk, hend.lastStop]
  rfl

/-- An entry of an object pattern is one of an object literal. -/
theorem propertyEntry_covers {e e' : Entry Node} (h : propertyEntry (read n) s = .ok e t)
    (h' : (Entry.plain <$> allowIn (objectProperty (read m))) s' = .ok e' t')
    (hends : e.Ends .closeBrace t.token.kind) :
    e.Covers (fun a b => b.toTarget = a.shift F.width) e' ∧ t.Framed F t' := by
  have hecho : Echo F s s' (propertyEntry (read n)) _ _ := .propertyEntry fun p => Echo.read n n p
  have hkept := (hecho.noIn_eq h).trans hin
  obtain ⟨y, u, hy, rfl, rfl⟩ := literalProperty_ok (hs.noIn.trans hin) h'
  rcases propertyEntry_ok h with ⟨hdots, x, hx, rfl⟩ | ⟨hdots, x, hx, rfl⟩
  · have hkind := (hs.kind_eq (.of_kind_eq hdots rfl)).trans hdots
    have hclose : t.token.kind = .punct .closeBrace := hends
    obtain ⟨-, z, hz, rfl⟩ | ⟨hno, -⟩ := spread_ok
      (q := fun start => memberHead >>= fun head => propertyAfter (read m) start head) hy
    · obtain ⟨htarget, hframed⟩ := restElement_covers hcover hs hin hx hz
        (by rw [hclose]; rfl) (by rw [hclose]; decide)
      exact ⟨.last htarget, hframed.allowIn hkept⟩
    · exact absurd hkind hno
  · have ht : t.token.kind.endsTarget = true := by
      rcases hends with h | h <;> rw [h] <;> rfl
    obtain ⟨htarget, hframed⟩ := patternProperty_covers hcover hs hin hx hy hdots ht
    exact ⟨.plain htarget, hframed.allowIn hkept⟩

end Elements

-- ---------------------------------------------------------------------------
-- Patterns
-- ---------------------------------------------------------------------------

/-- Where a text is read up to a token and the framed text up to the same one, and in both of
them this token is taken. -/
def TakenAlike (F : Frame) (t t' : State) : Prop :=
  ∃ u u' : State, u.Framed F u' ∧ u.token.Significant ∧
    (∃ d, t = { u.taken with depth := d }) ∧ ∃ d, t' = { u'.taken with depth := d }

theorem TakenAlike.framed (h : TakenAlike F t t') : t.Framed F t' := by
  obtain ⟨u, u', hframed, hsig, ⟨d, rfl⟩, ⟨d', rfl⟩⟩ := h
  exact (hframed.taken hsig).setDepth d d'

theorem TakenAlike.setDepth (h : TakenAlike F t t') (d d' : Nat) :
    TakenAlike F { t with depth := d } { t' with depth := d' } := by
  obtain ⟨u, u', hframed, hsig, ⟨_, rfl⟩, ⟨_, rfl⟩⟩ := h
  exact ⟨u, u', hframed, hsig, ⟨d, rfl⟩, ⟨d', rfl⟩⟩

/-- The same token in a text and in the framed text, whatever was taken before. -/
structure State.Opens (F : Frame) (s s' : State) : Prop where
  token : s'.token = s.token.within F
  taken : s.taken.Framed F s'.taken

theorem State.Framed.opens (h : s.Framed F s') (hsig : s.token.Significant) : s.Opens F s' :=
  ⟨h.token hsig, h.taken hsig⟩

theorem State.Opens.setDepth (h : s.Opens F s') (d d' : Nat) :
    State.Opens F { s with depth := d } { s' with depth := d' } :=
  ⟨h.token, h.taken.setDepth d d'⟩

/-- What stands between brackets in a text and in the framed text. -/
theorem bracketed_covers {α β : Type} {R : α → β → Prop} {opening closing : Punctuator}
    {p : Parser α} {q : Parser β} {f : α → Form Node} {f' : β → Form Node} (hs : s.Opens F s')
    (hinner : ∀ {x u x' u'}, s.taken.Framed F s'.taken → p s.taken = .ok x u →
      q s'.taken = .ok x' u' → u.token.kind = .punct closing → R x x' ∧ u.Framed F u')
    (hclosing : (TokenKind.punct closing).isSignificant)
    (h : (do
      let start ← position
      expect (.punct opening)
      let x ← p
      expect (.punct closing)
      nodeFrom start (f x)) s = .ok e t)
    (h' : (do
      let start ← position
      expect (.punct opening)
      let x ← q
      expect (.punct closing)
      nodeFrom start (f' x)) s' = .ok e' t') :
    ∃ x x' span, R x x' ∧ e = .mk span (f x) ∧ e' = .mk (span.shift F.width) (f' x') ∧
      TakenAlike F t t' := by
  obtain ⟨-, x, u, hx, hclose, rfl, rfl⟩ := bracketed_ok h
  obtain ⟨-, x', u', hx', -, rfl, rfl⟩ := bracketed_ok h'
  obtain ⟨hR, hframed⟩ := hinner hs.taken hx hx' hclose
  have husig : u.token.Significant := .of_kind_eq hclose hclosing
  refine ⟨x, x', _, hR, rfl, ?_, u, u', hframed, husig, ⟨_, rfl⟩, ⟨_, rfl⟩⟩
  rw [hs.token, hframed.token husig]
  rfl

/-- A pattern and the literal it is read as, up to the bracket that closes them. What is behind
it does not matter. -/
theorem pattern_covers (hcover : CoversTarget F n) (hs : s.Opens F s') (hin : s.noIn = false)
    (hbracket : OpensPattern s) (h : bindingTarget (read n) s = .ok e t)
    (h' : primary (read m) s' = .ok e' t') :
    e'.toTarget = e.shift F.width ∧ TakenAlike F t t' := by
  have hkind : s'.token.kind = s.token.kind := by rw [hs.token, Token.kind_within]
  obtain ⟨token, _, hcurrent, h'⟩ := bind_ok h'
  cases hcurrent
  obtain ⟨start, _, hpos, h'⟩ := bind_ok h'
  cases hpos
  obtain ⟨u, rfl, ⟨hk, hx⟩ | ⟨hk, hx⟩⟩ := pattern_ok hbracket h
  · rw [hkind, hk] at h'
    have hecho : ∀ s s', Echo F s s' (propertyEntry (read n)) (propertyEntry (read n)) _ :=
      fun _ _ => .propertyEntry fun p => Echo.read n n p
    obtain ⟨ps, ps', span, hlist, rfl, rfl, halike⟩ := bracketed_covers
      (p := listUntil .closeBrace (propertyEntry (read n)))
      (q := listUntil .closeBrace (.plain <$> allowIn (objectProperty (read m))))
      (hs.setDepth (s.depth + 1) s'.depth) (fun hs hx hx' hclose => listUntil_covers hecho
        (fun hs hin => propertyEntry_covers hcover hs hin) hs hin hx hx' hclose rfl) rfl hx h'
    refine ⟨?_, halike.setDepth _ t'.depth⟩
    rw [Node.toTarget, hlist, Node.shift_mk]
    rfl
  · rw [hkind, hk] at h'
    have hecho : ∀ s s', Echo F s s' (elementEntry (read n)) (elementEntry (read n)) _ :=
      fun _ _ => .elementEntry fun p => Echo.read n n p
    obtain ⟨es, es', span, hlist, rfl, rfl, halike⟩ := bracketed_covers
      (p := listUntil .closeBracket (elementEntry (read n)))
      (q := listUntil .closeBracket (literalEntry (read m)))
      (hs.setDepth (s.depth + 1) s'.depth) (fun hs hx hx' hclose => listUntil_covers hecho
        (fun hs hin => elementEntry_covers hcover hs hin) hs hin hx hx' hclose rfl) rfl hx h'
    refine ⟨?_, halike.setDepth _ t'.depth⟩
    rw [toTarget_arrayExpression, hlist, Node.shift_mk]
    rfl

/-- A pattern in a text and in the framed text, up to the bracket that closes it. -/
theorem pattern_echoes (hs : s.Opens F s') (hbracket : OpensPattern s)
    (h : bindingTarget (read n) s = .ok e t) (h' : bindingTarget (read m) s' = .ok e' t') :
    e' = e.shift F.width ∧ TakenAlike F t t' := by
  have hkind : s'.token.kind = s.token.kind := by rw [hs.token, Token.kind_within]
  have hs' := hs.setDepth (s.depth + 1) (s'.depth + 1)
  have hg := fun phrase t t' => Echo.read (F := F) n m phrase t t'
  have hbracket' : OpensPattern s' := by rwa [OpensPattern, hkind]
  obtain ⟨u', rfl, hu'⟩ := pattern_ok hbracket' h'
  rw [hkind] at hu'
  obtain ⟨u, rfl, ⟨hk, hx⟩ | ⟨hk, hx⟩⟩ := pattern_ok hbracket h
  · obtain ⟨-, hx'⟩ := hu'.resolve_right fun h => by cases hk.symm.trans h.1
    obtain ⟨ps, _, span, rfl, rfl, rfl, halike⟩ := bracketed_covers
      (p := listUntil .closeBrace (propertyEntry (read n)))
      (q := listUntil .closeBrace (propertyEntry (read m)))
      (R := fun ps ps' => ps' = ps.map (Node.shift F.width)) hs'
      (fun hs hx hx' hclose => (Echo.listUntil fun _ _ => .propertyEntry hg).agrees hs hx hx'
        (.of_kind_eq hclose rfl)) rfl hx hx'
    exact ⟨by rw [Node.shift_mk]; rfl, halike.setDepth _ _⟩
  · obtain ⟨-, hx'⟩ := hu'.resolve_left fun h => by cases hk.symm.trans h.1
    obtain ⟨es, _, span, rfl, rfl, rfl, halike⟩ := bracketed_covers
      (p := listUntil .closeBracket (elementEntry (read n)))
      (q := listUntil .closeBracket (elementEntry (read m)))
      (R := fun es es' => es' = es.map (Option.map (Node.shift F.width))) hs'
      (fun hs hx hx' hclose => (Echo.listUntil fun _ _ => .elementEntry hg).agrees hs hx hx'
        (.of_kind_eq hclose rfl)) rfl hx hx'
    exact ⟨by rw [Node.shift_mk]; rfl, halike.setDepth _ _⟩

/-- The induction over the nesting of patterns. -/
theorem target_covers (F : Frame) (n : Nat) : CoversTarget F n := by
  induction n with
  | zero =>
    intro m s s' t t' x x' _ _ h
    cases h
  | succ n ih =>
    intro m s s' t t' x x' hs hin h h' ht
    have hbegins := target_begins h ht
    have htsig : t.token.Significant := .of_endsTarget ht
    obtain ⟨d, y, u', hy, hends⟩ := conditional_primary h' (hbegins.framed hs).noOperator
    have hs' : s.Framed F { s' with depth := d } := hs.setDepth s.depth d
    have hopens : State.Opens F s { s' with depth := d } := hs'.opens hbegins.significant
    have hprimary : y.toTarget = x.shift F.width ∧ t.Framed F u' := by
      obtain ⟨u, rfl, ⟨hk, -⟩ | ⟨hk, -⟩ | hx⟩ := bindingTarget_ok h
      · obtain ⟨htarget, halike⟩ := pattern_covers ih hopens hin (.inl hk) h hy
        exact ⟨htarget, halike.framed⟩
      · obtain ⟨htarget, halike⟩ := pattern_covers ih hopens hin (.inr hk) h hy
        exact ⟨htarget, halike.framed⟩
      · obtain ⟨hname, rfl, -⟩ := identifier_ok hx
        have hname : s.token.isBindingName = true := hname
        have hasync : s'.token.beginsAsyncFunction = false := by
          rw [hs.token hbegins.significant, Token.beginsAsyncFunction,
            Token.continuesWith_within (hs.pos hbegins.significant) rfl (by decide)]
          exact continuesWith_of_ends ht rfl
        have hy := primary_ok_of_name hy
          (by rw [hs.token hbegins.significant]; exact hname) hasync
        obtain ⟨rfl, hframed⟩ :=
          Echo.identifier.agrees (hs.setDepth (s.depth + 1) d) hx hy htsig
        refine ⟨?_, hframed.setDepth _ u'.depth⟩
        rw [Node.toTarget_shift, toTarget_of_target h]
    obtain ⟨htarget, hframed⟩ := hprimary
    obtain ⟨rfl, d', rfl⟩ := hends <| by
      rw [hframed.kind_eq htsig]
      exact TokenKind.endsOperand_of_endsTarget ht
    exact ⟨htarget, hframed.setDepth t.depth d'⟩

end Grammar

end ModuleBundler
