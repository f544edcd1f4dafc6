import ModuleBundler.Proofs.LookAhead
import ModuleBundler.Proofs.Loops
import ModuleBundler.Proofs.Shift

/-!
# ModuleBundler — parsers on a framed text

On a framed text a parser does what it does on the text, so many bytes later. This cannot be
said of the end of the text, where the framed text goes on; but as long as the parser comes
to a token of the text, all the tokens it has seen are tokens of the text.

Nothing is said of failures, for a framed text may nest its phrases deeper.

* `State.Framed` — a state on a text and the same one on the framed text.
* `Echo` — a parser on a text and one on the framed text that gives the same, but later.
-/

namespace ModuleBundler.Grammar

open Text (Cursor)
open String (utf8Len)

variable {F : Frame}

-- ---------------------------------------------------------------------------
-- States
-- ---------------------------------------------------------------------------

/-- A state on a text and the same one on the framed text. -/
structure State.Framed (F : Frame) (s s' : State) : Prop where
  token : s.token.Significant → s'.token = s.token.within F
  proper : s.token.Significant → s.token.Proper
  lastStop : s'.lastStop = s.lastStop + F.width
  noIn : s'.noIn = s.noIn
  fits : s.token.start.offset + utf8Len s.token.start.rest ≤ s.size
  size : s.size + F.width ≤ s'.size

namespace State.Framed

variable {s s' : State}

theorem kind_eq (h : s.Framed F s') (hsig : s.token.Significant) :
    s'.token.kind = s.token.kind := by
  rw [h.token hsig, Token.kind_within]

theorem pos (h : s.Framed F s') (hsig : s.token.Significant) : 0 < s.token.stop.offset :=
  (h.proper hsig).pos

theorem setDepth (h : s.Framed F s') (m n : Nat) :
    Framed F { s with depth := m } { s' with depth := n } :=
  ⟨h.token, h.proper, h.lastStop, h.noIn, h.fits, h.size⟩

theorem setNoIn (h : s.Framed F s') (noIn : Bool) :
    Framed F { s with noIn := noIn } { s' with noIn := noIn } :=
  ⟨h.token, h.proper, h.lastStop, rfl, h.fits, h.size⟩

/-- The current token is taken in both texts. -/
theorem taken (h : s.Framed F s') (hsig : s.token.Significant) :
    Framed F { s with token := s.token.next, lastStop := s.token.stop.offset }
      { s' with token := s'.token.next, lastStop := s'.token.stop.offset } := by
  rw [h.token hsig]
  have hproper := h.proper hsig
  have hbytes := (hproper.before.trans (Token.before_after_start s.token.stop)).bytes
  have hfits := h.fits
  refine ⟨Token.next_within hproper.pos, Token.after_proper, rfl, h.noIn, ?_, h.size⟩
  show (Token.after s.token.stop).start.offset + utf8Len (Token.after s.token.stop).start.rest ≤
    s.size
  omega

/-- The current token is read anew in both texts. -/
theorem reread (h : s.Framed F s') {f : Token → Token} (hsig : s.token.Significant)
    (hstart : (f s.token).start = s.token.start)
    (hwithin : s.token.Proper → (f s.token).Significant →
      f (s.token.within F) = (f s.token).within F)
    (hproper : s.token.Proper → (f s.token).Proper) :
    Framed F { s with token := f s.token } { s' with token := f s'.token } := by
  rw [h.token hsig]
  refine ⟨hwithin (h.proper hsig), fun _ => hproper (h.proper hsig), h.lastStop, h.noIn, ?_, h.size⟩
  show (f s.token).start.offset + utf8Len (f s.token).start.rest ≤ s.size
  rw [hstart]
  exact h.fits

/-- The bounds on the look-ahead are wide enough in both texts. -/
theorem beginsArrowFunction_eq (h : s.Framed F s') (hsig : s.token.Significant) :
    s'.token.beginsArrowFunction (s'.ahead + 1) = s.token.beginsArrowFunction (s.ahead + 1) := by
  have hfits := h.fits
  have hsize := h.size
  rw [h.token hsig]
  refine Token.beginsArrowFunction_within (h.proper hsig) ?_ ?_
  · rw [State.ahead]
    omega
  · rw [State.ahead, State.ahead, h.token hsig]
    show _ ≤ s'.size - (s.token.start.offset + F.width) + 1
    omega

end State.Framed

-- ---------------------------------------------------------------------------
-- Echoes
-- ---------------------------------------------------------------------------

/-- What holds of a parser on a text and of one on the framed text, from two states on. If
the first one succeeds, `in` is an operator behind it as before it, and if it comes to a token
of the text, it began at one. If both succeed, they come to the same state, and the second one
gives what the first one gives, put into the framed text. -/
structure Echo {α β : Type} (F : Frame) (s s' : State) (p : Parser α) (p' : Parser β) (φ : α → β) :
    Prop where
  noIn_eq : ∀ ⦃x t⦄, p s = .ok x t → t.noIn = s.noIn
  lasts : ∀ ⦃x t⦄, p s = .ok x t → t.token.Significant → s.token.Significant
  agrees : ∀ ⦃x t x' t'⦄, s.Framed F s' → p s = .ok x t → p' s' = .ok x' t' →
    t.token.Significant → x' = φ x ∧ t.Framed F t'

/-- What follows when a token may be there. -/
theorem accept_bind {α : Type} (κ : TokenKind) (f : Bool → Parser α) :
    (accept κ >>= f) = isAt κ >>= fun isThere =>
      if isThere then (advance >>= fun _ => f true) else f false := by
  rw [accept, bind_assoc]
  refine bind_congr fun isThere => ?_
  split <;> simp

/-- An entry with another value. -/
def Entry.map {α β : Type} (φ : α → β) : Entry α → Entry β
  | plain a => plain (φ a)
  | whole a => whole (φ a)
  | last a => last (φ a)

namespace Echo

section Steps

variable {α β γ δ : Type} {s s' : State} {φ : α → β} {ψ : γ → δ} {p q : Parser α}
  {p' q' : Parser β} {f : α → Parser γ} {f' : β → Parser δ}

/-- A step behind another one, of which it is known what it gave. -/
theorem bindOk (hp : Echo F s s' p p' φ)
    (hf : ∀ x t t', p s = .ok x t → Echo F t t' (f x) (f' (φ x)) ψ) :
    Echo F s s' (p >>= f) (p' >>= f') ψ := by
  constructor
  · intro y u h
    obtain ⟨x, t, hx, h⟩ := bind_ok h
    exact ((hf x t t hx).noIn_eq h).trans (hp.noIn_eq hx)
  · intro y u h hsig
    obtain ⟨x, t, hx, h⟩ := bind_ok h
    exact hp.lasts hx ((hf x t t hx).lasts h hsig)
  · intro y u y' u' hs h h' hsig
    obtain ⟨x, t, hx, h⟩ := bind_ok h
    obtain ⟨x', t', hx', h'⟩ := bind_ok h'
    have hf := hf x t t' hx
    obtain ⟨rfl, ht⟩ := hp.agrees hs hx hx' (hf.lasts h hsig)
    exact hf.agrees ht h h' hsig

theorem bind (hp : Echo F s s' p p' φ) (hf : ∀ x t t', Echo F t t' (f x) (f' (φ x)) ψ) :
    Echo F s s' (p >>= f) (p' >>= f') ψ :=
  hp.bindOk fun x t t' _ => hf x t t'

/-- What is seen of the state. -/
theorem look {v : State → α} {v' : State → β} {b : β}
    (hv : s.Framed F s' → s.token.Significant → v' s' = b) (h : Echo F s s' (f (v s)) (f' b) ψ) :
    Echo F s s' ((fun s => .ok (v s) s) >>= f) ((fun s => .ok (v' s) s) >>= f') ψ := by
  refine ⟨fun x t hx => h.noIn_eq hx, fun x t hx => h.lasts hx, fun x t x' t' hs hx hx' hsig => ?_⟩
  have hx' : f' (v' s') s' = .ok x' t' := hx'
  rw [hv hs (h.lasts hx hsig)] at hx'
  exact h.agrees hs hx hx' hsig

/-- What is seen of the state and given. -/
theorem value {v : State → α} {w : State → β}
    (hv : s.Framed F s' → s.token.Significant → w s' = φ (v s)) :
    Echo F s s' (fun s => .ok (v s) s) (fun s => .ok (w s) s) φ := by
  constructor
  · intro x t hx
    cases hx
    rfl
  · intro x t hx hsig
    cases hx
    exact hsig
  · intro x t x' t' hs hx hx' hsig
    cases hx
    cases hx'
    exact ⟨hv hs hsig, hs⟩

theorem pure {x : α} {x' : β} (h : x' = φ x) :
    Echo F s s' (Pure.pure x : Parser α) (Pure.pure x' : Parser β) φ :=
  .value (v := fun _ => x) (w := fun _ => x') fun _ _ => h

theorem node {a : Nat} {form form' : Form Node}
    (hform : form' = form.shift F.width (Node.shift F.width)) :
    Echo F s s' (nodeFrom a form) (nodeFrom (a + F.width) form') (Node.shift F.width) := by
  refine .value fun hs _ => ?_
  rw [Node.shift_mk, hform, hs.lastStop]
  rfl

theorem fail {fault : SyntaxFault} : Echo F s s' (Grammar.fail fault : Parser α) p' φ :=
  ⟨fun _ _ h => (nomatch h), fun _ _ h => (nomatch h), fun _ _ _ _ _ h => (nomatch h)⟩

theorem exhausted : Echo F s s' (Grammar.exhausted : Parser α) p' φ :=
  ⟨fun _ _ h => (nomatch h), fun _ _ h => (nomatch h), fun _ _ _ _ _ h => (nomatch h)⟩

theorem exhausted_right (hp : Echo F s s' p p' φ) :
    Echo F s s' p (Grammar.exhausted : Parser β) φ :=
  ⟨hp.noIn_eq, hp.lasts, fun _ _ _ _ _ _ h => (nomatch h)⟩

/-- Another parser on the framed text, which does the same at a token of the text. -/
theorem conv {q' : Parser β} (h : s.Framed F s' → s.token.Significant → q' = p')
    (hp : Echo F s s' p p' φ) : Echo F s s' p q' φ := by
  refine ⟨hp.noIn_eq, hp.lasts, fun x t x' t' hs hx hx' hsig => ?_⟩
  rw [h hs (hp.lasts hx hsig)] at hx'
  exact hp.agrees hs hx hx' hsig

/-- A condition that means the same in both texts. -/
theorem iteOf {c c' : Prop} [Decidable c] [Decidable c']
    (hc : s.Framed F s' → s.token.Significant → (c' ↔ c)) (hp : c → Echo F s s' p p' φ)
    (hq : ¬c → Echo F s s' q q' φ) :
    Echo F s s' (if c then p else q) (if c' then p' else q') φ := by
  have hsame : Echo F s s' (if c then p else q) (if c then p' else q') φ := by
    by_cases h : c
    · simp only [if_pos h]
      exact hp h
    · simp only [if_neg h]
      exact hq h
  exact .conv (fun hs hsig => by simp only [hc hs hsig]) hsame

theorem ite {c : Prop} [Decidable c] (hp : c → Echo F s s' p p' φ)
    (hq : ¬c → Echo F s s' q q' φ) : Echo F s s' (if c then p else q) (if c then p' else q') φ :=
  .iteOf (fun _ _ => Iff.rfl) hp hq

theorem map {k : α → γ} {k' : β → δ} (hp : Echo F s s' p p' φ) (h : ∀ x, k' (φ x) = ψ (k x)) :
    Echo F s s' (k <$> p) (k' <$> p') ψ := by
  rw [map_eq_pure_bind, map_eq_pure_bind]
  exact hp.bind fun x _ _ => .pure (h x)

theorem nested (hp : ∀ t t', Echo F t t' p p' φ) :
    Echo F s s' (Grammar.nested p) (Grammar.nested p') φ := by
  constructor
  · intro x t h
    obtain ⟨u, hu, rfl⟩ := nested_ok h
    have hkept := (hp { s with depth := s.depth + 1 } s').noIn_eq hu
    exact hkept
  · intro x t h hsig
    obtain ⟨u, hu, rfl⟩ := nested_ok h
    exact (hp { s with depth := s.depth + 1 } s').lasts hu hsig
  · intro x t x' t' hs h h' hsig
    obtain ⟨u, hu, rfl⟩ := nested_ok h
    obtain ⟨u', hu', rfl⟩ := nested_ok h'
    obtain ⟨hx, hframed⟩ := (hp _ _).agrees (hs.setDepth _ _) hu hu' hsig
    exact ⟨hx, hframed.setDepth _ _⟩

theorem withIn {noIn : Bool}
    (hp : Echo F { s with noIn := noIn } { s' with noIn := noIn } p p' φ) :
    Echo F s s' (Grammar.withIn noIn p) (Grammar.withIn noIn p') φ := by
  constructor
  · intro x t h
    obtain ⟨u, -, rfl⟩ := withIn_ok h
    rfl
  · intro x t h hsig
    obtain ⟨u, hu, rfl⟩ := withIn_ok h
    exact hp.lasts hu hsig
  · intro x t x' t' hs h h' hsig
    obtain ⟨u, hu, rfl⟩ := withIn_ok h
    obtain ⟨u', hu', rfl⟩ := withIn_ok h'
    obtain ⟨hx, hframed⟩ := hp.agrees (hs.setNoIn _) hu hu' hsig
    rw [hs.noIn]
    exact ⟨hx, hframed.setNoIn _⟩

theorem allowIn (hp : Echo F { s with noIn := false } { s' with noIn := false } p p' φ) :
    Echo F s s' (Grammar.allowIn p) (Grammar.allowIn p') φ :=
  hp.withIn

-- ---------------------------------------------------------------------------
-- The current token
-- ---------------------------------------------------------------------------

variable {κ : TokenKind}

theorem current {f : Token → Parser γ} {f' : Token → Parser δ}
    (h : Echo F s s' (f s.token) (f' (s.token.within F)) ψ) :
    Echo F s s' (Grammar.current >>= f) (Grammar.current >>= f') ψ :=
  .look (fun hs hsig => hs.token hsig) h

theorem kind {f : TokenKind → Parser γ} {f' : TokenKind → Parser δ}
    (h : Echo F s s' (f s.token.kind) (f' s.token.kind) ψ) :
    Echo F s s' (Grammar.kind >>= f) (Grammar.kind >>= f') ψ :=
  .look (fun hs hsig => hs.kind_eq hsig) h

theorem isAt {f : Bool → Parser γ} {f' : Bool → Parser δ}
    (h : Echo F s s' (f (s.token.kind = κ)) (f' (s.token.kind = κ)) ψ) :
    Echo F s s' (Grammar.isAt κ >>= f) (Grammar.isAt κ >>= f') ψ :=
  .look (fun hs hsig => by rw [hs.kind_eq hsig]) h

theorem position {f : Nat → Parser γ} {f' : Nat → Parser δ}
    (h : Echo F s s' (f s.token.start.offset) (f' (s.token.start.offset + F.width)) ψ) :
    Echo F s s' (Grammar.position >>= f) (Grammar.position >>= f') ψ :=
  .look (fun hs hsig => by rw [hs.token hsig]; rfl) h

theorem afterLineBreak {f : Bool → Parser γ} {f' : Bool → Parser δ}
    (h : Echo F s s' (f s.token.afterLineBreak) (f' s.token.afterLineBreak) ψ) :
    Echo F s s' (Grammar.afterLineBreak >>= f) (Grammar.afterLineBreak >>= f') ψ :=
  .look (fun hs hsig => by rw [hs.token hsig]; rfl) h

theorem goesOn {op : TokenKind} {above : Nat} {f : Bool → Parser γ} {f' : Bool → Parser δ}
    (h : Echo F s s' (f (above < precedence op && !(op = .word .inKw && s.noIn)))
      (f' (above < precedence op && !(op = .word .inKw && s.noIn))) ψ) :
    Echo F s s' (Grammar.goesOn op above >>= f) (Grammar.goesOn op above >>= f') ψ :=
  .look (fun hs _ => by rw [hs.noIn]) h

theorem atArrowFunction {f : Bool → Parser γ} {f' : Bool → Parser δ}
    (h : Echo F s s' (f (s.token.beginsArrowFunction (s.ahead + 1)))
      (f' (s.token.beginsArrowFunction (s.ahead + 1))) ψ) :
    Echo F s s' (Grammar.atArrowFunction >>= f) (Grammar.atArrowFunction >>= f') ψ :=
  .look (fun hs hsig => hs.beginsArrowFunction_eq hsig) h

/-- The number of rounds that a loop is given is another one. -/
theorem rounds {f : Nat → Parser γ} {f' : Nat → Parser δ}
    (h : ∀ n n', Echo F s s' (f n) (f' n') ψ) :
    Echo F s s' (Grammar.rounds >>= f) (Grammar.rounds >>= f') ψ :=
  ⟨fun _ _ hx => (h _ 0).noIn_eq hx, fun _ _ hx => (h _ 0).lasts hx,
    fun _ _ _ _ hs hx hx' => (h _ _).agrees hs hx hx'⟩

theorem advance (hsig : s.token.Significant) : Echo F s s' Grammar.advance Grammar.advance id := by
  refine ⟨fun x t hx => ?_, fun _ _ _ _ => hsig, fun x t x' t' hs hx hx' _ => ?_⟩
  · cases hx
    rfl
  cases hx
  cases hx'
  exact ⟨rfl, hs.taken hsig⟩

theorem takeValue (hsig : s.token.Significant) :
    Echo F s s' Grammar.takeValue Grammar.takeValue id :=
  .current <| (advance hsig).bind fun _ _ _ => .pure rfl

/-- What follows a token that may be there, and what stands in its place. -/
theorem accepting (hκ : κ.isSignificant = true)
    (hp : s.token.kind = κ → ∀ t t', Echo F t t' p p' φ)
    (hq : s.token.kind ≠ κ → Echo F s s' q q' φ) :
    Echo F s s' (Grammar.accept κ >>= fun taken => if taken then p else q)
      (Grammar.accept κ >>= fun taken => if taken then p' else q') φ := by
  rw [accept_bind, accept_bind]
  refine .isAt <| .ite (fun hk => ?_) fun hk => hq (of_decide_eq_false (eq_false_of_ne_true hk))
  have hk : s.token.kind = κ := of_decide_eq_true hk
  exact (advance (.of_kind_eq hk hκ)).bind fun _ _ _ => hp hk _ _

theorem accept (hκ : κ.isSignificant = true) :
    Echo F s s' (Grammar.accept κ) (Grammar.accept κ) id :=
  .isAt <| .ite
    (fun hk => (advance (.of_kind_eq (of_decide_eq_true hk) hκ)).bind fun _ _ _ => .pure rfl)
    fun _ => .pure rfl

theorem expect (hκ : κ.isSignificant = true) :
    Echo F s s' (Grammar.expect κ) (Grammar.expect κ) id := by
  refine (accept hκ).bind fun taken _ _ => ?_
  cases taken with
  | true => exact .pure rfl
  | false => exact .fail

/-- The current token is read anew. -/
theorem reread {f : Token → Token} (hstart : ∀ t, (f t).start = t.start)
    (hsig : ∀ t, (f t).Significant → t.Significant)
    (hwithin : ∀ t : Token, t.Proper → (f t).Significant → f (t.within F) = (f t).within F)
    (hproper : ∀ t : Token, t.Proper → (f t).Proper) :
    Echo F s s' (Grammar.reread f) (Grammar.reread f) id := by
  constructor
  · intro x t hx
    cases hx
    rfl
  · intro x t hx ht
    cases hx
    exact hsig _ ht
  · intro x t x' t' hs hx hx' ht
    cases hx
    cases hx'
    exact ⟨rfl, hs.reread (hsig _ ht) (hstart _) (hwithin _) (hproper _)⟩

-- ---------------------------------------------------------------------------
-- Loops
-- ---------------------------------------------------------------------------

/-- A loop whose rounds go on from states with a property. -/
theorem loopFrom {σ σ' : Type} {round : σ → Parser (σ ⊕ γ)} {round' : σ' → Parser (σ' ⊕ δ)}
    {χ : σ → σ'} (I : State → Prop) (hs : I s)
    (hround : ∀ x t t', I t → Echo F t t' (round x) (round' (χ x)) (Sum.map χ ψ))
    (hkeep : ∀ ⦃x y t u⦄, I t → round x t = .ok (.inl y) u → I u) (n n' : Nat) (x : σ) :
    Echo F s s' (Grammar.loop round n x) (Grammar.loop round' n' (χ x)) ψ := by
  induction n generalizing s s' n' x with
  | zero => exact .exhausted
  | succ n ih =>
    have hsucc : ∀ n', Echo F s s' (Grammar.loop round (n + 1) x)
        (Grammar.loop round' (n' + 1) (χ x)) ψ := by
      refine fun n' => (hround x s s' hs).bindOk fun r t t' h => ?_
      cases r with
      | inl y => exact ih (hkeep hs h) n' y
      | inr b => exact .pure rfl
    cases n' with
    | zero => exact (hsucc 0).exhausted_right
    | succ n' => exact hsucc n'

theorem loop {σ σ' : Type} {round : σ → Parser (σ ⊕ γ)} {round' : σ' → Parser (σ' ⊕ δ)}
    {χ : σ → σ'} (hround : ∀ x t t', Echo F t t' (round x) (round' (χ x)) (Sum.map χ ψ))
    (n n' : Nat) (x : σ) :
    Echo F s s' (Grammar.loop round n x) (Grammar.loop round' n' (χ x)) ψ :=
  loopFrom (fun _ => True) trivial (fun x t t' _ => hround x t t')
    (fun _ _ _ _ _ _ => trivial) n n' x

theorem manyRound {ends : TokenKind → Bool} (hp : ∀ t t', Echo F t t' p p' φ) (acc : List α) :
    Echo F s s' (Grammar.manyRound ends p acc) (Grammar.manyRound ends p' (acc.map φ))
      (Sum.map (List.map φ) (List.map φ)) :=
  .kind <| .ite (fun _ => .pure (by simp)) fun _ => (hp _ _).bind fun _ _ _ => .pure rfl

theorem many {ends : TokenKind → Bool} (hp : ∀ t t', Echo F t t' p p' φ) :
    Echo F s s' (Grammar.many ends p) (Grammar.many ends p') (List.map φ) := by
  refine .rounds fun n n' => ?_
  rw [many_go_eq, many_go_eq]
  exact loop (fun acc _ _ => manyRound hp acc) n n' []

theorem listRound {closing : Punctuator} {entry : Parser (Entry γ)} {entry' : Parser (Entry δ)}
    (hentry : ∀ t t', Echo F t t' entry entry' (Entry.map ψ)) (acc : List γ) :
    Echo F s s' (Grammar.listRound closing entry acc) (Grammar.listRound closing entry' (acc.map ψ))
      (Sum.map (List.map ψ) (List.map ψ)) := by
  refine .isAt <| .ite (fun _ => .pure (by simp)) fun _ => (hentry _ _).bind fun e t t' => ?_
  cases e with
  | plain x =>
    exact .isAt <| .ite (fun _ => (expect rfl).bind fun _ _ _ => .pure rfl) fun _ => .pure rfl
  | whole x => exact .pure rfl
  | last x => exact .pure (by simp)

theorem listUntil {closing : Punctuator} {entry : Parser (Entry γ)} {entry' : Parser (Entry δ)}
    (hentry : ∀ t t', Echo F t t' entry entry' (Entry.map ψ)) :
    Echo F s s' (Grammar.listUntil closing entry) (Grammar.listUntil closing entry')
      (List.map ψ) := by
  refine .rounds fun n n' => ?_
  rw [listUntil_go_eq, listUntil_go_eq]
  exact loop (fun acc _ _ => listRound hentry acc) n n' []

theorem separatedRound (hp : ∀ t t', Echo F t t' p p' φ) (acc : List α) :
    Echo F s s' (Grammar.separatedRound p acc) (Grammar.separatedRound p' (acc.map φ))
      (Sum.map (List.map φ) (List.map φ)) :=
  .accepting rfl (fun _ _ _ => (hp _ _).bind fun _ _ _ => .pure rfl) fun _ => .pure (by simp)

theorem separated (hp : ∀ t t', Echo F t t' p p' φ) :
    Echo F s s' (Grammar.separated p) (Grammar.separated p') (List.map φ) := by
  refine .rounds fun n n' => (hp _ _).bind fun x _ _ => ?_
  rw [separated_go_eq, separated_go_eq]
  exact loop (fun acc _ _ => separatedRound hp acc) n n' [x]

end Steps

end Echo

end ModuleBundler.Grammar
