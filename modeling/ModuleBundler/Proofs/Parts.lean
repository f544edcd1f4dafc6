import ModuleBundler.Proofs.Forward

/-!
# ModuleBundler — what an accepted phrase consists of

An expression is read through many levels, from assignments down to single operands, and each
level goes on where the one below has stopped, if it finds a token that belongs to it. What was
read tells which levels went on. At a token that ends an operand none of them did.

* `assignment_ok`, `conditional_ok`, `sequence_ok`, … — what a level made of the one below.
* `bracketed_ok` — what stands between brackets.
* `TokenKind.endsOperand`, `conditional_primary` — an operand that is all there is.
-/

namespace ModuleBundler.Grammar

variable {g : Reading} {s t : State} {e : Node}

theorem exists_of_mem_run' {α : Type} {p : Parser α} {a : α} (h : a ∈ p.run' s) :
    ∃ t, p s = .ok a t := by
  delta EStateM.run' EStateM.run at h
  cases hp : p s with
  | ok b t =>
    rw [hp] at h
    cases h
    exact ⟨t, rfl⟩
  | error d t =>
    rw [hp] at h
    cases h

-- ---------------------------------------------------------------------------
-- Levels
-- ---------------------------------------------------------------------------

/-- A condition, or what stands for one. -/
theorem conditional_ok (h : conditional g s = .ok e t) : ∃ test u, binary g 0 s = .ok test u ∧
    (u.token.kind ≠ .punct .question ∧ e = test ∧ t = u ∨
      u.token.kind = .punct .question ∧
        ∃ span consequent alternate,
          e = .mk span (.conditionalExpression test consequent alternate)) := by
  obtain ⟨start, _, hpos, h⟩ := bind_ok h
  cases hpos
  obtain ⟨test, u, htest, h⟩ := bind_ok h
  obtain ⟨taken, v, haccept, hrest⟩ := bind_ok h
  rcases accept_ok haccept with ⟨hk, rfl, -⟩ | ⟨hk, rfl, rfl⟩
  · obtain ⟨consequent, _, -, hrest⟩ := bind_ok hrest
    obtain ⟨_, _, -, hrest⟩ := bind_ok hrest
    obtain ⟨alternate, _, -, hrest⟩ := bind_ok hrest
    cases hrest
    exact ⟨test, u, htest, .inr ⟨hk, _, _, _, rfl⟩⟩
  · cases hrest
    exact ⟨_, _, htest, .inl ⟨hk, rfl, rfl⟩⟩

/-- An assignment, or what stands for one, if it begins neither with `yield` nor as an arrow
function. -/
theorem assignment_ok (h : assignment g s = .ok e t) (hyield : s.token.kind ≠ .word .yieldKw)
    (harrow : s.token.beginsArrowFunction (s.ahead + 1) = false) :
    ∃ left u, conditional g { s with depth := s.depth + 1 } = .ok left u ∧
      (u.token.kind.isAssignment = false ∧ e = left ∧ t = { u with depth := u.depth - 1 } ∨
        u.token.kind.isAssignment = true ∧ ∃ right v, g .assignment u.taken = .ok right v ∧
          e = .mk ⟨s.token.start.offset, v.lastStop⟩ (.assignmentExpression u.token.kind
            (if u.token.kind = .punct .assign then left.toTarget else left) right) ∧
          t = { v with depth := v.depth - 1 }) := by
  obtain ⟨v, hv, rfl⟩ := nested_ok h
  obtain ⟨isYield, _, hat, hv⟩ := bind_ok hv
  cases hat
  rw [if_neg (by simpa using hyield)] at hv
  obtain ⟨isArrow, _, hat, hv⟩ := bind_ok hv
  cases hat
  have harrow' : ({ s with depth := s.depth + 1 } : State).token.beginsArrowFunction
      (State.ahead { s with depth := s.depth + 1 } + 1) = false := harrow
  rw [harrow', if_neg Bool.false_ne_true] at hv
  obtain ⟨start, _, hpos, hv⟩ := bind_ok hv
  cases hpos
  obtain ⟨left, u, hleft, hv⟩ := bind_ok hv
  obtain ⟨op, _, hkind, hv⟩ := bind_ok hv
  cases hkind
  refine ⟨left, u, hleft, ?_⟩
  split at hv
  · rename_i hop
    obtain ⟨_, _, hadvance, hv⟩ := bind_ok hv
    cases hadvance
    obtain ⟨right, w, hright, hv⟩ := bind_ok hv
    cases hv
    exact .inr ⟨hop, right, _, hright, rfl, rfl⟩
  · rename_i hop
    cases hv
    exact .inl ⟨Bool.eq_false_of_not_eq_true hop, rfl, rfl⟩

/-- An assignment that begins as an arrow function is one. -/
theorem assignment_ok_of_arrow (h : assignment g s = .ok e t)
    (hyield : s.token.kind ≠ .word .yieldKw)
    (harrow : s.token.beginsArrowFunction (s.ahead + 1) = true) :
    ∃ u, arrowFunction g { s with depth := s.depth + 1 } = .ok e u ∧
      t = { u with depth := u.depth - 1 } := by
  obtain ⟨v, hv, rfl⟩ := nested_ok h
  obtain ⟨isYield, _, hat, hv⟩ := bind_ok hv
  cases hat
  rw [if_neg (by simpa using hyield)] at hv
  obtain ⟨isArrow, _, hat, hv⟩ := bind_ok hv
  cases hat
  have harrow' : ({ s with depth := s.depth + 1 } : State).token.beginsArrowFunction
      (State.ahead { s with depth := s.depth + 1 } + 1) = true := harrow
  rw [harrow', if_pos rfl] at hv
  exact ⟨v, hv, rfl⟩

theorem length_le_of_go {α : Type} {item : Parser α} {n : Nat} {acc es : List α} {s t : State}
    (h : separated.go item n acc s = .ok es t) : acc.length ≤ es.length := by
  induction n generalizing acc s with
  | zero => cases h
  | succ n ih =>
    obtain ⟨taken, u, haccept, hrest⟩ := bind_ok h
    split at hrest
    · obtain ⟨a, v, -, hrest⟩ := bind_ok hrest
      have := ih hrest
      rw [List.length_cons] at this
      omega
    · cases hrest
      rw [List.length_reverse]

/-- A list that a comma does not go on with has one item. -/
theorem separated_ok {α : Type} {item : Parser α} {as : List α}
    (h : separated item s = .ok as t) :
    ∃ first u, item s = .ok first u ∧ (u.token.kind ≠ .punct .comma ∧ as = [first] ∧ t = u ∨
      u.token.kind = .punct .comma ∧ 2 ≤ as.length) := by
  obtain ⟨n, _, hrounds, h⟩ := bind_ok h
  cases hrounds
  obtain ⟨first, u, hfirst, h⟩ := bind_ok h
  obtain ⟨taken, w, haccept, hrest⟩ := bind_ok h
  rcases accept_ok haccept with ⟨hk, rfl, -⟩ | ⟨hk, rfl, rfl⟩
  · obtain ⟨second, _, -, hrest⟩ := bind_ok hrest
    exact ⟨first, u, hfirst, .inr ⟨hk, length_le_of_go hrest⟩⟩
  · cases hrest
    exact ⟨_, _, hfirst, .inl ⟨hk, rfl, rfl⟩⟩

/-- One expression, or what several with commas between them make up. -/
theorem sequence_ok {p : Parser Node} (h : sequence p s = .ok e t) :
    ∃ first u, p s = .ok first u ∧ (u.token.kind ≠ .punct .comma ∧ e = first ∧ t = u ∨
      u.token.kind = .punct .comma ∧ ∃ span es, e = .mk span (.sequenceExpression es)) := by
  obtain ⟨start, _, hpos, h⟩ := bind_ok h
  cases hpos
  obtain ⟨es, v, hes, h⟩ := bind_ok h
  obtain ⟨first, u, hfirst, ⟨hk, rfl, rfl⟩ | ⟨hk, hlength⟩⟩ := separated_ok hes
  · cases h
    exact ⟨_, _, hfirst, .inl ⟨hk, rfl, rfl⟩⟩
  · match es, hlength with
    | a :: b :: es, _ =>
      cases h
      exact ⟨first, u, hfirst, .inr ⟨hk, _, _, rfl⟩⟩

/-- What an expression statement consists of. -/
theorem expressionStatement_ok (h : expressionStatement g s = .ok e t) : ∃ x u v,
    sequence (assignment g) { s with noIn := false } = .ok x u ∧
      endOfStatement { u with noIn := s.noIn } = .ok () v ∧
      e = .mk ⟨s.token.start.offset, v.lastStop⟩ (.expressionStatement x) ∧ t = v := by
  obtain ⟨start, _, hpos, h⟩ := bind_ok h
  cases hpos
  obtain ⟨x, u, hx, h⟩ := bind_ok h
  obtain ⟨u', hu', rfl⟩ := withIn_ok hx
  obtain ⟨_, v, hend, h⟩ := bind_ok h
  cases h
  exact ⟨x, u', _, hu', hend, rfl, rfl⟩

/-- What stands between two tokens, with a form made of it. -/
theorem bracketed_ok {α : Type} {opening closing : Punctuator} {p : Parser α}
    {f : α → Form Node}
    (h : (do
      let start ← position
      expect (.punct opening)
      let x ← p
      expect (.punct closing)
      nodeFrom start (f x)) s = .ok e t) :
    s.token.kind = .punct opening ∧ ∃ x u, p s.taken = .ok x u ∧
      u.token.kind = .punct closing ∧ t = u.taken ∧
      e = .mk ⟨s.token.start.offset, u.token.stop.offset⟩ (f x) := by
  obtain ⟨start, _, hpos, h⟩ := bind_ok h
  cases hpos
  obtain ⟨_, v, hopen, h⟩ := bind_ok h
  obtain ⟨hopening, rfl⟩ := expect_ok hopen
  obtain ⟨x, u, hx, h⟩ := bind_ok h
  obtain ⟨_, w, hclose, h⟩ := bind_ok h
  obtain ⟨hclosing, rfl⟩ := expect_ok hclose
  cases h
  exact ⟨hopening, x, u, hx, hclosing, rfl, rfl⟩

/-- A comma, or the end of the list in its place. -/
theorem comma_ok {α : Type} {closing : Punctuator} {a b : α} (h : (do
      if !(← isAt (.punct closing)) then expect (.punct .comma)
      return a) s = .ok b t) :
    b = a ∧ (s.token.kind = .punct closing ∧ t = s ∨
      s.token.kind ≠ .punct closing ∧ s.token.kind = .punct .comma ∧ t = s.taken) := by
  obtain ⟨closes, _, hat, h⟩ := bind_ok h
  cases hat
  by_cases hk : s.token.kind = .punct closing
  · rw [if_neg (by simp [hk])] at h
    cases h
    exact ⟨rfl, .inl ⟨hk, rfl⟩⟩
  · rw [if_pos (by simp [hk])] at h
    obtain ⟨_, _, hexpect, h⟩ := bind_ok h
    obtain ⟨hcomma, rfl⟩ := expect_ok hexpect
    cases h
    exact ⟨rfl, .inr ⟨hk, hcomma, rfl⟩⟩

section Lists

variable {α : Type} {closing : Punctuator} {entry : Parser (Entry α)} {n : Nat} {acc as : List α}

/-- A list ends at its closing token. -/
theorem listRounds_closed (h : loop (listRound closing entry) n acc s = .ok as t)
    (hs : s.token.kind = .punct closing) : as = acc.reverse ∧ t = s := by
  cases n with
  | zero => cases h
  | succ n =>
    obtain ⟨r, u, hround, hrest⟩ := bind_ok h
    obtain ⟨closes, _, hat, hround⟩ := bind_ok hround
    cases hat
    rw [if_pos (decide_eq_true hs)] at hround
    cases hround
    cases hrest
    exact ⟨rfl, rfl⟩

/-- A list that does not end goes on with an entry. -/
theorem listRounds_more (h : loop (listRound closing entry) (n + 1) acc s = .ok as t)
    (hs : s.token.kind ≠ .punct closing) : ∃ e u, entry s = .ok e u ∧
      match e with
      | .plain a => u.token.kind = .punct closing ∧
            loop (listRound closing entry) n (a :: acc) u = .ok as t ∨
          u.token.kind ≠ .punct closing ∧ u.token.kind = .punct .comma ∧
            loop (listRound closing entry) n (a :: acc) u.taken = .ok as t
      | .whole a => loop (listRound closing entry) n (a :: acc) u = .ok as t
      | .last a => as = (a :: acc).reverse ∧ t = u := by
  obtain ⟨r, v, hround, hrest⟩ := bind_ok h
  obtain ⟨closes, _, hat, hround⟩ := bind_ok hround
  cases hat
  rw [if_neg (by simp [hs])] at hround
  obtain ⟨e, u, he, hround⟩ := bind_ok hround
  refine ⟨e, u, he, ?_⟩
  cases e with
  | plain a =>
    obtain ⟨rfl, ⟨hclose, rfl⟩ | ⟨hclose, hcomma, rfl⟩⟩ := comma_ok hround
    · exact .inl ⟨hclose, hrest⟩
    · exact .inr ⟨hclose, hcomma, hrest⟩
  | whole a =>
    cases hround
    exact hrest
  | last a =>
    cases hround
    cases hrest
    exact ⟨rfl, rfl⟩

end Lists

end ModuleBundler.Grammar

-- ---------------------------------------------------------------------------
-- Operands
-- ---------------------------------------------------------------------------

namespace ModuleBundler.TokenKind

/-- The tokens that may stand behind a target. -/
def endsTarget : TokenKind → Bool
  | .punct .comma | .punct .closeBracket | .punct .closeBrace | .punct .closeParen => true
  | .punct .semicolon | .punct .assign => true
  | _ => false

/-- The tokens behind a target, and the end of the text or a fault. With none of them an operand
goes on. -/
def endsOperand (k : TokenKind) : Bool := k.endsTarget || k = .endOfFile || k = .unknown

/-- Operators and words that stand before an operand. -/
def precedesOperand : TokenKind → Bool
  | .word .newKw | .word .superKw | .word .importKw | .word .awaitKw => true
  | k => Grammar.isUnaryOperator k || Grammar.isUpdateOperator k

variable {k : TokenKind}

theorem endsOperand_of_endsTarget (h : k.endsTarget = true) : k.endsOperand = true := by
  simp [endsOperand, h]

theorem ne_of_endsOperand {k' : TokenKind} (h : k.endsOperand = true)
    (hk' : k'.endsOperand = false) : k ≠ k' := by
  rintro rfl
  exact Bool.noConfusion (hk'.symm.trans h)

theorem precedence_of_endsOperand (h : k.endsOperand = true) : Grammar.precedence k = 0 := by
  unfold Grammar.precedence
  split <;> first | rfl | exact absurd h (by decide)

theorem isUpdateOperator_of_endsOperand (h : k.endsOperand = true) :
    Grammar.isUpdateOperator k = false := by
  unfold Grammar.isUpdateOperator
  split <;> first | rfl | exact absurd h (by decide)

theorem isAssignment_of_endsOperand (h : k.endsOperand = true) (hne : k ≠ .punct .assign) :
    k.isAssignment = false := by
  cases k with
  | punct p => cases p <;> first | rfl | exact absurd rfl hne | exact absurd h (by decide)
  | _ => rfl

end ModuleBundler.TokenKind

theorem ModuleBundler.Token.Significant.of_endsTarget {t : Token}
    (h : t.kind.endsTarget = true) : t.Significant :=
  .of_kind TokenKind.endsTarget h rfl rfl

theorem ModuleBundler.TokenKind.endsOperand_of_not_significant {t : Token} (h : ¬t.Significant) :
    t.kind.endsOperand = true := by
  by_contra hends
  exact h (.of_kind (fun k => !k.endsOperand) (by simp [hends]) rfl rfl)

namespace ModuleBundler.Grammar

section Operands

variable {g : Reading} {s t : State} {e : Node}

/-- A phrase that is an operand from a state on and all that there is, if a token ends it. -/
def IsOperand (g : Reading) (s : State) (e : Node) (t : State) : Prop :=
  ∃ m x u, primary g { s with depth := m } = .ok x u ∧
    (u.token.kind.endsOperand = true → e = x ∧ ∃ n, t = { u with depth := n })

theorem accesses_of_ends {start n : Nat} {calls isOptional : Bool} {x : Node}
    (h : accesses g start calls n isOptional x s = .ok e t)
    (hs : s.token.kind.endsOperand = true) : e = x ∧ t = s := by
  cases n with
  | zero => cases h
  | succ n =>
    obtain ⟨k, _, hkind, h⟩ := bind_ok h
    cases hkind
    generalize s.token.kind = k at h hs
    split at h
    all_goals first
      | exact absurd hs (by decide)
      | (cases h; exact ⟨rfl, rfl⟩)

theorem leftHandSide_primary (h : leftHandSide g s = .ok e t)
    (hs : s.token.kind.precedesOperand = false) :
    ∃ x u, primary g s = .ok x u ∧ (u.token.kind.endsOperand = true → e = x ∧ t = u) := by
  obtain ⟨start, _, hpos, h⟩ := bind_ok h
  cases hpos
  obtain ⟨k, _, hkind, h⟩ := bind_ok h
  cases hkind
  generalize hk : s.token.kind = k at h hs
  have hrest : ∀ {k : Nat}, (primary g >>= fun x => do accesses g k true (← rounds) false x) s =
      .ok e t → ∃ x u, primary g s = .ok x u ∧
        (u.token.kind.endsOperand = true → e = x ∧ t = u) := by
    intro k h
    obtain ⟨x, u, hx, h⟩ := bind_ok h
    obtain ⟨n, _, hrounds, h⟩ := bind_ok h
    cases hrounds
    exact ⟨x, u, hx, accesses_of_ends h⟩
  split at h
  · cases hs
  · cases hs
  · cases hs
  · exact hrest h

theorem updated_primary (h : updated g s = .ok e t) (hs : s.token.kind.precedesOperand = false) :
    ∃ x u, primary g s = .ok x u ∧ (u.token.kind.endsOperand = true → e = x ∧ t = u) := by
  obtain ⟨start, _, hpos, h⟩ := bind_ok h
  cases hpos
  obtain ⟨y, v, hy, h⟩ := bind_ok h
  obtain ⟨x, u, hx, hends⟩ := leftHandSide_primary hy hs
  refine ⟨x, u, hx, fun hu => ?_⟩
  obtain ⟨rfl, rfl⟩ := hends hu
  obtain ⟨token, _, hcurrent, h⟩ := bind_ok h
  cases hcurrent
  rw [if_neg (by simp [TokenKind.isUpdateOperator_of_endsOperand hu])] at h
  cases h
  exact ⟨rfl, rfl⟩

theorem unary_primary (h : unary g s = .ok e t) (hs : s.token.kind.precedesOperand = false) :
    IsOperand g s e t := by
  obtain ⟨v, hv, rfl⟩ := nested_ok h
  obtain ⟨start, _, hpos, hv⟩ := bind_ok hv
  cases hpos
  obtain ⟨op, _, hkind, hv⟩ := bind_ok hv
  cases hkind
  have hnot : isUnaryOperator s.token.kind = false ∧ isUpdateOperator s.token.kind = false ∧
      s.token.kind ≠ .word .awaitKw := by
    generalize s.token.kind = k at hs
    unfold TokenKind.precedesOperand at hs
    split at hs
    all_goals first
      | cases hs
      | (rw [Bool.or_eq_false_iff] at hs
         exact ⟨hs.1, hs.2, by assumption⟩)
  rw [if_neg (by simp [hnot.1]), if_neg (by simp [hnot.2.1]), if_neg hnot.2.2] at hv
  obtain ⟨x, u, hx, hends⟩ := updated_primary hv hs
  refine ⟨_, x, u, hx, fun hu => ?_⟩
  obtain ⟨rfl, rfl⟩ := hends hu
  exact ⟨rfl, _, rfl⟩

theorem binary_primary {above : Nat} (h : binary g above s = .ok e t)
    (hs : s.token.kind.precedesOperand = false) : IsOperand g s e t := by
  obtain ⟨start, _, hpos, h⟩ := bind_ok h
  cases hpos
  obtain ⟨y, v, hy, h⟩ := bind_ok h
  obtain ⟨m, x, u, hx, hends⟩ := unary_primary hy hs
  refine ⟨m, x, u, hx, fun hu => ?_⟩
  obtain ⟨rfl, n, rfl⟩ := hends hu
  obtain ⟨k, _, hrounds, h⟩ := bind_ok h
  cases hrounds
  obtain ⟨op, _, hkind, h⟩ := bind_ok h
  cases hkind
  obtain ⟨goes, _, hgoes, h⟩ := bind_ok h
  cases hgoes
  rw [if_neg (by simp [TokenKind.precedence_of_endsOperand hu])] at h
  cases h
  exact ⟨rfl, _, rfl⟩

/-- A condition is a primary expression where nothing comes before or behind. -/
theorem conditional_primary (h : conditional g s = .ok e t)
    (hs : s.token.kind.precedesOperand = false) : IsOperand g s e t := by
  obtain ⟨test, v, htest, hrest⟩ := conditional_ok h
  obtain ⟨m, x, u, hx, hends⟩ := binary_primary htest hs
  refine ⟨m, x, u, hx, fun hu => ?_⟩
  obtain ⟨rfl, n, rfl⟩ := hends hu
  rcases hrest with ⟨-, rfl, rfl⟩ | ⟨hk, -⟩
  · exact ⟨rfl, n, rfl⟩
  · exact absurd hk (TokenKind.ne_of_endsOperand hu rfl)

end Operands

end ModuleBundler.Grammar
