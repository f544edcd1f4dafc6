import ModuleBundler.Proofs.Nesting
import ModuleBundler.Proofs.Parts
import ModuleBundler.Proofs.Rounds

/-!
# ModuleBundler — operators by precedence

Operands with operators between them can be put together in many ways. The precedence of the
operators chooses one of them: the operator at the root of a left operand binds tighter than the
operator outside, or as tight and to the left, and the one at the root of a right operand binds
tighter, or as tight if both are `**`. This is a condition on neighbours only, and yet there is
no second tree that meets it.

The parser takes operators in from left to right and asks only whether the next one binds tighter
than a bound. What it has put together always fits to the left of the operator it comes to.

* `operatorLevels` — the levels of the binary operators, and `precedence_eq_tightness`, that the
  parser goes by them.
* `Grouping` — operands that are put together by operators.
* `Grouping.Grouped`, `Grouping.Grouped.unique` — the condition, and that one tree meets it.
* `OperatorChain` — operands and operators in turn, as they are ahead of the parser.
* `binary_gathers` — what the parser makes of a chain.
* `expressionStatement_grouping` — the same for statements.
-/

namespace ModuleBundler.Grammar

-- ---------------------------------------------------------------------------
-- Levels
-- ---------------------------------------------------------------------------

/-- The binary operators by levels, from those that bind least tight to `**`. -/
def operatorLevels : List (List TokenKind) :=
  [[.punct .logicalOr, .punct .coalesce],
    [.punct .logicalAnd],
    [.punct .bar],
    [.punct .caret],
    [.punct .ampersand],
    [.punct .equal, .punct .notEqual, .punct .strictEqual, .punct .strictNotEqual],
    [.punct .less, .punct .lessEqual, .punct .greater, .punct .greaterEqual, .word .inKw,
      .word .instanceOfKw],
    [.punct .shiftLeft, .punct .shiftRight, .punct .shiftRightZero],
    [.punct .plus, .punct .minus],
    [.punct .star, .punct .slash, .punct .percent],
    [.punct .power]]

/-- A token that can stand between two operands. -/
def IsBinary (op : TokenKind) : Prop := ∃ level ∈ operatorLevels, op ∈ level

/-- The number of the level of an operator, counted from one; zero for all else. -/
def tightness (op : TokenKind) : Nat :=
  (operatorLevels.findIdx? fun level => op ∈ level).elim 0 (· + 1)

variable {op op' inner inner' : TokenKind}

theorem tightness_pos_iff : 0 < tightness op ↔ IsBinary op := by
  have hsome := @List.findIdx?_isSome _ operatorLevels fun level => decide (op ∈ level)
  rw [Bool.eq_iff_iff, List.any_eq_true] at hsome
  simp only [decide_eq_true_eq] at hsome
  rw [IsBinary, ← hsome, tightness]
  cases operatorLevels.findIdx? fun level => decide (op ∈ level) <;> simp

/-- The parser goes by the levels of the operators. -/
theorem precedence_eq_tightness (op : TokenKind) : precedence op = tightness op := by
  cases op with
  | punct p => cases p <;> rfl
  | word k => cases k <;> rfl
  | _ => rfl

theorem tightness_power : tightness (.punct .power) = 11 := rfl

theorem tightness_le (op : TokenKind) : tightness op ≤ 11 :=
  precedence_eq_tightness op ▸ precedence_le op

/-- No other operator binds as tight as `**`. -/
theorem tightness_of_ne (h : op ≠ .punct .power) : tightness op ≤ 10 :=
  precedence_eq_tightness op ▸ (rightPrecedence_of_ne h).2

-- ---------------------------------------------------------------------------
-- Groupings
-- ---------------------------------------------------------------------------

/-- Operands that are put together by operators. -/
inductive Grouping where
  | operand (e : Node)
  | operation (op : TokenKind) (left right : Grouping)

/-- An operator may be at the root of the left operand of another one. -/
def FitsLeft (inner op : TokenKind) : Prop :=
  tightness op < tightness inner ∨ tightness op = tightness inner ∧ op ≠ .punct .power

/-- An operator may be at the root of the right operand of another one. -/
def FitsRight (inner op : TokenKind) : Prop :=
  tightness op < tightness inner ∨ tightness op = tightness inner ∧ op = .punct .power

theorem FitsLeft.le (h : FitsLeft inner op) : tightness op ≤ tightness inner :=
  h.elim Nat.le_of_lt fun h => h.1.le

theorem FitsRight.le (h : FitsRight inner op) : tightness op ≤ tightness inner :=
  h.elim Nat.le_of_lt fun h => h.1.le

theorem FitsLeft.mono (h : FitsLeft inner op) (hle : tightness inner ≤ tightness inner') :
    FitsLeft inner' op := by
  rcases h with hlt | ⟨heq, hop⟩
  · exact .inl (by omega)
  · exact (Nat.lt_or_eq_of_le (heq ▸ hle)).imp_right fun heq => ⟨heq, hop⟩

theorem FitsRight.mono (h : FitsRight inner op) (hle : tightness inner ≤ tightness inner') :
    FitsRight inner' op := by
  rcases h with hlt | ⟨heq, hop⟩
  · exact .inl (by omega)
  · exact (Nat.lt_or_eq_of_le (heq ▸ hle)).imp_right fun heq => ⟨heq, hop⟩

/-- Of two operators not each can have the other one inside, to the left and to the right. -/
theorem not_fitsLeft_and_fitsRight (hleft : FitsLeft op op') (hright : FitsRight op' op) :
    False := by
  rcases hleft with hlt | ⟨heq, hop'⟩
  · rcases hright with hlt' | ⟨heq, -⟩ <;> omega
  · rcases hright with hlt | ⟨-, rfl⟩
    · omega
    · have hle := tightness_of_ne hop'
      rw [tightness_power] at heq
      omega

namespace Grouping

/-- The leftmost operand. -/
def first : Grouping → Node
  | operand e => e
  | operation _ l _ => l.first

/-- The operators from left to right, each with the operand behind it. -/
def rest : Grouping → List (TokenKind × Node)
  | operand _ => []
  | operation op l r => l.rest ++ (op, r.first) :: r.rest

/-- The operator at the root. -/
def root? : Grouping → Option TokenKind
  | operand _ => none
  | operation op _ _ => some op

/-- Every operator fits to what is around it. -/
inductive Grouped : Grouping → Prop
  | operand (e : Node) : Grouped (.operand e)
  | operation {op : TokenKind} {l r : Grouping} (hl : Grouped l) (hr : Grouped r)
    (hleft : ∀ inner, l.root? = some inner → FitsLeft inner op)
    (hright : ∀ inner, r.root? = some inner → FitsRight inner op) : Grouped (.operation op l r)

/-- A node has the operands and operators of a grouping. -/
inductive Shows : Grouping → Node → Prop
  | operand (e : Node) : Shows (.operand e) e
  | operation {op : TokenKind} {l r : Grouping} {left right : Node} (span : Text.Span)
    (hl : Shows l left) (hr : Shows r right) :
    Shows (.operation op l r) (.mk span (.binaryExpression op left right))

variable {G l r : Grouping} {x : TokenKind × Node}

theorem exists_mem_rest (h : G.root? = some op) : ∃ e, (op, e) ∈ G.rest := by
  cases G with
  | operand e => cases h
  | operation op l r =>
    cases h
    exact ⟨r.first, by simp [rest]⟩

theorem rest_eq_nil (h : G.root? = none) : G.rest = [] := by
  cases G with
  | operand e => rfl
  | operation op l r => cases h

/-- No operator binds less tight than the one at the root. -/
theorem Grouped.tightness_le (h : G.Grouped) (hroot : G.root? = some op) (hx : x ∈ G.rest) :
    tightness op ≤ tightness x.1 := by
  induction h generalizing op with
  | operand e => cases hroot
  | @operation op' l r _ _ hleft hright ihl ihr =>
    cases hroot
    rcases List.mem_append.1 hx with hx | hx
    · cases hl : l.root? with
      | none => simp [rest_eq_nil hl] at hx
      | some inner => exact (hleft inner hl).le.trans (ihl hl hx)
    rcases List.mem_cons.1 hx with rfl | hx
    · exact Nat.le_refl _
    · cases hr : r.root? with
      | none => simp [rest_eq_nil hr] at hx
      | some inner => exact (hright inner hr).le.trans (ihr hr hx)

/-- What holds of the operator at the root of a left operand holds of all operators in it. -/
theorem Grouped.fitsLeft (hl : l.Grouped) (h : ∀ inner, l.root? = some inner → FitsLeft inner op)
    (hx : x ∈ l.rest) : FitsLeft x.1 op := by
  cases hroot : l.root? with
  | none => simp [rest_eq_nil hroot] at hx
  | some inner => exact (h inner hroot).mono (hl.tightness_le hroot hx)

theorem Grouped.fitsRight (hr : r.Grouped)
    (h : ∀ inner, r.root? = some inner → FitsRight inner op) (hx : x ∈ r.rest) :
    FitsRight x.1 op := by
  cases hroot : r.root? with
  | none => simp [rest_eq_nil hroot] at hx
  | some inner => exact (h inner hroot).mono (hr.tightness_le hroot hx)

/-- The root of a grouping stands where it stands in another one, for otherwise one of them would
be to the right of the other one and have it to the right as well. -/
theorem Grouped.sides_eq {op' : TokenKind} {l' r' : Grouping}
    (h : (Grouping.operation op l r).Grouped) (h' : (Grouping.operation op' l' r').Grouped)
    (hrest : (Grouping.operation op l r).rest = (Grouping.operation op' l' r').rest) :
    l.rest = l'.rest ∧ op = op' ∧ r.first = r'.first ∧ r.rest = r'.rest := by
  cases h with | operation hl hr hleft hright =>
  cases h' with | operation hl' hr' hleft' hright' =>
  rcases List.append_eq_append_iff.1 hrest with
    ⟨_ | ⟨x, between⟩, hlonger, hbehind⟩ | ⟨_ | ⟨x, between⟩, hlonger, hbehind⟩
  · simp only [List.nil_append, List.cons.injEq, Prod.mk.injEq] at hbehind
    exact ⟨by simpa using hlonger.symm, hbehind.1.1, hbehind.1.2, hbehind.2⟩
  · simp only [List.cons_append, List.cons.injEq] at hbehind
    have hin : (op, r.first) ∈ l'.rest := by simp [hlonger, hbehind.1]
    have hin' : (op', r'.first) ∈ r.rest := by simp [hbehind.2]
    exact (not_fitsLeft_and_fitsRight (hl'.fitsLeft hleft' hin) (hr.fitsRight hright hin')).elim
  · simp only [List.nil_append, List.cons.injEq, Prod.mk.injEq] at hbehind
    exact ⟨by simpa using hlonger, hbehind.1.1.symm, hbehind.1.2.symm, hbehind.2.symm⟩
  · simp only [List.cons_append, List.cons.injEq] at hbehind
    have hin : (op', r'.first) ∈ l.rest := by simp [hlonger, hbehind.1]
    have hin' : (op, r.first) ∈ r'.rest := by simp [hbehind.2]
    exact (not_fitsLeft_and_fitsRight (hl.fitsLeft hleft hin) (hr'.fitsRight hright' hin')).elim

/-- Operands and operators can be put together in one way only. -/
theorem Grouped.unique {G' : Grouping} (h : G.Grouped) (h' : G'.Grouped)
    (hfirst : G.first = G'.first) (hrest : G.rest = G'.rest) : G = G' := by
  induction G generalizing G' with
  | operand e =>
    cases G' with
    | operand e' => exact congrArg _ hfirst
    | operation op' l' r' => simp [rest] at hrest
  | operation op l r ihl ihr =>
    cases G' with
    | operand e' => simp [rest] at hrest
    | operation op' l' r' =>
      obtain ⟨hl, rfl, hr, hr'⟩ := h.sides_eq h' hrest
      cases h with | operation hgl hgr _ _ =>
      cases h' with | operation hgl' hgr' _ _ =>
      rw [ihl hgl hgl' hfirst hl, ihr hgr hgr' hr hr']

end Grouping

-- ---------------------------------------------------------------------------
-- Chains
-- ---------------------------------------------------------------------------

/-- The current token is an operator between two operands. -/
def IsOperator (s : State) (op : TokenKind) : Prop :=
  s.token.kind = op ∧ IsBinary op ∧ ¬(op = .word .inKw ∧ s.noIn = true)

theorem IsOperator.precedence_pos {s : State} (h : IsOperator s op) : 0 < precedence op :=
  precedence_eq_tightness op ▸ tightness_pos_iff.2 h.2.1

/-- Operators and operands in turn, from one state to a later one. -/
inductive OperatorChain : State → List (TokenKind × Node) → State → Prop
  | nil (s : State) : OperatorChain s [] s
  | cons {s s' t u : State} {op : TokenKind} {e : Node} {rest : List (TokenKind × Node)} {n : Nat}
    (hop : IsOperator s op) (hadvance : advance s = .ok () s')
    (he : read n .unary s' = .ok e t) (hrest : OperatorChain t rest u) :
    OperatorChain s ((op, e) :: rest) u

namespace OperatorChain

variable {s t u : State} {rest rest' : List (TokenKind × Node)}

theorem append (h : OperatorChain s rest t) (h' : OperatorChain t rest' u) :
    OperatorChain s (rest ++ rest') u := by
  induction h with
  | nil s => exact h'
  | cons hop hadvance he _ ih => exact .cons hop hadvance he (ih h')

/-- Where no operator follows, a chain is all that there is. -/
theorem unique (h : OperatorChain s rest t) (h' : OperatorChain s rest' u)
    (ht : ∀ op, ¬IsOperator t op) (hu : ∀ op, ¬IsOperator u op) : rest = rest' ∧ t = u := by
  induction h generalizing rest' with
  | nil s =>
    cases h' with
    | nil => exact ⟨rfl, rfl⟩
    | cons hop => exact absurd hop (ht _)
  | cons hop hadvance he _ ih =>
    cases h' with
    | nil => exact absurd hop (hu _)
    | cons hop' hadvance' he' hrest' =>
      cases hop.1.symm.trans hop'.1
      cases hadvance.symm.trans hadvance'
      obtain ⟨rfl, rfl⟩ := read_unique he he'
      obtain ⟨rfl, rfl⟩ := ih hrest' ht
      exact ⟨rfl, rfl⟩

end OperatorChain

/-- What the operands and operators between two states are put together to. -/
structure Grouping.Gathers (G : Grouping) (above : Nat) (s : State) (e : Node) (t : State) :
    Prop where
  operands : ∃ n u, read n .unary s = .ok G.first u ∧ OperatorChain u G.rest t
  grouped : G.Grouped
  shows : G.Shows e
  tighter : ∀ x ∈ G.rest, above < precedence x.1
  /-- The operator that follows may take it in as its left operand. -/
  fits : ∀ op inner, IsOperator t op → G.root? = some inner → FitsLeft inner op

theorem rightPrecedence_power : rightPrecedence (.punct .power) = 10 := rfl

/-- An operator that does not go on in the right operand of another one fits outside it. -/
theorem fitsLeft_of_le {op next : TokenKind} (h : precedence next ≤ rightPrecedence op) :
    FitsLeft op next := by
  rw [precedence_eq_tightness] at h
  by_cases hop : op = .punct .power
  · subst hop
    rw [rightPrecedence_power] at h
    exact .inl (by rw [tightness_power]; omega)
  · rw [(rightPrecedence_of_ne hop).1, precedence_eq_tightness] at h
    refine (Nat.lt_or_eq_of_le h).imp_right fun heq => ⟨heq, ?_⟩
    rintro rfl
    have hle := tightness_of_ne hop
    rw [tightness_power] at heq
    omega

/-- An operator that goes on in the right operand of another one fits inside it. -/
theorem fitsRight_of_lt {op inner : TokenKind} (h : rightPrecedence op < precedence inner) :
    FitsRight inner op := by
  rw [precedence_eq_tightness] at h
  by_cases hop : op = .punct .power
  · subst hop
    have hle := tightness_le inner
    rw [rightPrecedence_power] at h
    exact .inr ⟨by rw [tightness_power]; omega, rfl⟩
  · rw [(rightPrecedence_of_ne hop).1, precedence_eq_tightness] at h
    exact .inl h

theorem le_rightPrecedence {op : TokenKind} {above : Nat} (h : above < precedence op) :
    above ≤ rightPrecedence op := by
  unfold rightPrecedence
  split <;> omega

/-- An operator and its right operand are put behind what was put together before. -/
theorem Grouping.Gathers.operation {G G' : Grouping} {above : Nat} {s t t' u : State}
    {op : TokenKind} {left right : Node} (span : Text.Span) (h : G.Gathers above s left t)
    (hop : IsOperator t op) (habove : above < precedence op) (hadvance : advance t = .ok () t')
    (h' : G'.Gathers (rightPrecedence op) t' right u)
    (hstops : ∀ next, IsOperator u next → precedence next ≤ rightPrecedence op) :
    (Grouping.operation op G G').Gathers above s
      (.mk span (.binaryExpression op left right)) u := by
  obtain ⟨n, v, hfirst, hchain⟩ := h.operands
  obtain ⟨m, v', hfirst', hchain'⟩ := h'.operands
  constructor
  case operands => exact ⟨n, v, hfirst, hchain.append (.cons hop hadvance hfirst' hchain')⟩
  case grouped =>
    refine .operation h.grouped h'.grouped (fun inner => h.fits op inner hop) fun inner hinner => ?_
    obtain ⟨e, he⟩ := exists_mem_rest hinner
    exact fitsRight_of_lt (h'.tighter _ he)
  case shows => exact .operation span h.shows h'.shows
  case tighter =>
    intro x hx
    rcases List.mem_append.1 hx with hx | hx
    · exact h.tighter x hx
    rcases List.mem_cons.1 hx with rfl | hx
    · exact habove
    · exact (le_rightPrecedence habove).trans_lt (h'.tighter x hx)
  case fits =>
    rintro next inner hnext ⟨⟩
    exact fitsLeft_of_le (hstops next hnext)

theorem goesOn_ok {op : TokenKind} {above : Nat} {s t : State} {goes : Bool}
    (h : goesOn op above s = .ok goes t) : t = s ∧
      (goes = true ↔ above < precedence op ∧ ¬(op = .word .inKw ∧ s.noIn = true)) := by
  cases h
  simp only [Bool.and_eq_true, decide_eq_true_eq, Bool.not_eq_true', Bool.and_eq_false_iff,
    decide_eq_false_iff_not, not_and, Bool.not_eq_true, true_and]
  refine and_congr_right fun _ => ⟨fun h hin => h.resolve_left (not_not_intro hin), fun h => ?_⟩
  exact (em (op = .word .inKw)).symm.imp_right h

/-- The operators behind an operand are taken in one after the other. -/
theorem operations_gathers {n : Nat}
    (ih : ∀ above s e t, read n (.binary above) s = .ok e t →
      ∃ G : Grouping, G.Gathers above s e t ∧ ∀ op, IsOperator t op → precedence op ≤ above)
    {start above k : Nat} {s₀ s t : State} {left e : Node} {G : Grouping}
    (hG : G.Gathers above s₀ left s) (h : operations (read n) start above k left s = .ok e t) :
    ∃ G' : Grouping, G'.Gathers above s₀ e t ∧ ∀ op, IsOperator t op → precedence op ≤ above := by
  induction k generalizing s left G with
  | zero => cases h
  | succ k ihk =>
    obtain ⟨op, _, hkind, h⟩ := bind_ok h
    cases hkind
    obtain ⟨goes, s', hgoes, h⟩ := bind_ok h
    obtain ⟨rfl, hgoes⟩ := goesOn_ok hgoes
    split at h
    case isFalse hstop =>
      cases h
      refine ⟨G, hG, fun op hop => ?_⟩
      obtain ⟨rfl, -, hin⟩ := hop
      by_contra hlt
      exact hstop (hgoes.2 ⟨by omega, hin⟩)
    case isTrue hgo =>
      obtain ⟨habove, hin⟩ := hgoes.1 hgo
      have hbinary : IsBinary s'.token.kind :=
        tightness_pos_iff.1 (precedence_eq_tightness s'.token.kind ▸ by omega)
      have hop : IsOperator s' s'.token.kind := ⟨rfl, hbinary, hin⟩
      obtain ⟨_, s₁, hadvance, h⟩ := bind_ok h
      obtain ⟨right, s₂, hright, h⟩ := bind_ok h
      obtain ⟨node, _, hnode, h⟩ := bind_ok h
      cases hnode
      obtain ⟨G', hG', hstops⟩ := ih _ _ _ _ hright
      exact ihk (hG.operation _ hop habove hadvance hG' hstops) h

/-- Operands and operators are read to a tree in which they are grouped by precedence. -/
theorem read_binary_gathers {n above : Nat} {s t : State} {e : Node}
    (h : read n (.binary above) s = .ok e t) :
    ∃ G : Grouping, G.Gathers above s e t ∧ ∀ op, IsOperator t op → precedence op ≤ above := by
  induction n generalizing above s e t with
  | zero => cases h
  | succ n ih =>
    obtain ⟨start, _, hpos, h⟩ := bind_ok h
    cases hpos
    obtain ⟨first, u, hfirst, h⟩ := bind_ok h
    obtain ⟨k, _, hrounds, h⟩ := bind_ok h
    cases hrounds
    refine operations_gathers (fun _ _ _ _ => ih) (G := .operand first) ?_ h
    exact ⟨⟨n + 1, u, hfirst, .nil u⟩, .operand first, .operand first, by simp [Grouping.rest],
      fun _ _ _ h => nomatch h⟩

/-- No operator follows a tree that is read without a bound. -/
theorem binary_gathers {n : Nat} {s t : State} {e : Node} (h : binary (read n) 0 s = .ok e t) :
    ∃ G : Grouping, G.Gathers 0 s e t ∧ ∀ op, ¬IsOperator t op := by
  obtain ⟨G, hG, hstops⟩ := read_binary_gathers (n := n + 1) h
  exact ⟨G, hG, fun op hop => (hop.precedence_pos.trans_le (hstops op hop)).false⟩

-- ---------------------------------------------------------------------------
-- Statements
-- ---------------------------------------------------------------------------

/-- Where an expression inside a statement begins. -/
def State.inside (s : State) : State := { s with noIn := false, depth := s.depth + 1 }

/-- An expression statement of operands and operators in turn: neither an arrow function nor a
`yield` begins there, and none of the larger expressions goes on behind the last operand. -/
structure OperatorStatement (s : State) (first : Node) (rest : List (TokenKind × Node)) : Prop where
  noArrow : s.token.beginsArrowFunction (s.ahead + 1) = false
  noYield : s.token.kind ≠ .word .yieldKw
  operands : ∃ n u t, read n .unary s.inside = .ok first u ∧ OperatorChain u rest t ∧
    (∀ op, ¬IsOperator t op) ∧ t.token.kind ≠ .punct .question ∧ t.token.kind ≠ .punct .comma ∧
    t.token.kind.isAssignment = false

/-- Whether a node joins two operands by an operator. -/
def isOperation (e : Node) : Bool :=
  match e.form with
  | .binaryExpression _ _ _ => true
  | _ => false

section Levels

variable {g : Reading} {s t : State} {e : Node}

theorem yields_nodeFrom {P : Node → Prop} {start : Nat} {form : Form Node}
    (h : ∀ span, P (.mk span form)) : Yields P (nodeFrom start form) := by
  intro s n t hn
  cases hn
  exact h _

theorem yields_yieldExpression_isOperation :
    Yields (isOperation · = false) (yieldExpression g) := by
  have hnode : ∀ start argument delegates,
      Yields (isOperation · = false) (nodeFrom start (.yieldExpression argument delegates)) :=
    fun _ _ _ => yields_nodeFrom fun _ => rfl
  exact .next fun _ => .next fun _ => .next fun _ => .ite (hnode ..) <| .next fun _ =>
    .ite (.next fun _ => hnode ..) <| .next fun _ => .ite (.next fun _ => hnode ..) (hnode ..)

theorem yields_arrowFunction_isOperation : Yields (isOperation · = false) (arrowFunction g) := by
  have hend : ∀ start isAsync params,
      Yields (isOperation · = false) (arrowEnd g start isAsync params) :=
    fun _ _ _ => .next fun _ => .maybe <| .next fun _ => .next fun _ => yields_nodeFrom fun _ => rfl
  have hparts : ∀ start isAsync, Yields (isOperation · = false) (arrowParts g start isAsync) :=
    fun _ _ => .next fun _ => .ite (.next fun _ => hend ..) (.next fun _ => hend ..)
  exact .next fun _ => .next fun _ => .maybe (hparts ..)

/-- A statement that begins otherwise is no operation. -/
theorem isOperation_of_begins (h : assignment g s = .ok e t)
    (hbegins : s.token.kind = .word .yieldKw ∨
      s.token.beginsArrowFunction (s.ahead + 1) = true) : isOperation e = false := by
  by_cases hyield : s.token.kind = .word .yieldKw
  · obtain ⟨v, hv, rfl⟩ := nested_ok h
    obtain ⟨isYield, _, hat, hv⟩ := bind_ok hv
    cases hat
    rw [if_pos (by simpa using hyield)] at hv
    exact yields_yieldExpression_isOperation hv
  · obtain ⟨u, hu, rfl⟩ := assignment_ok_of_arrow h hyield (hbegins.resolve_left hyield)
    exact yields_arrowFunction_isOperation hu

end Levels

variable {n : Nat} {s t : State} {e x : Node} {first : Node} {rest : List (TokenKind × Node)}

/-- The operands and operators of a statement are all that its expression is read from. -/
theorem OperatorStatement.gathers (h : OperatorStatement s first rest) {u : State}
    (hx : sequence (assignment (read n)) { s with noIn := false } = .ok x u) :
    ∃ (G : Grouping) (t : State), G.Gathers 0 s.inside x t ∧ G.first = first ∧ G.rest = rest := by
  obtain ⟨m, v, w, hfirst, hchain, hstops, hquestion, hcomma, hassign⟩ := h.operands
  obtain ⟨e, u₁, he, hsequence⟩ := sequence_ok hx
  obtain ⟨left, u₂, hleft, hassignment⟩ := assignment_ok he h.noYield h.noArrow
  obtain ⟨test, u₃, htest, hconditional⟩ := conditional_ok hleft
  obtain ⟨G, hG, hends⟩ := binary_gathers htest
  obtain ⟨k, v', hfirst', hchain'⟩ := hG.operands
  obtain ⟨heq, rfl⟩ := read_unique hfirst' hfirst
  obtain ⟨hrest, rfl⟩ := hchain'.unique hchain hends hstops
  refine ⟨G, u₃, ?_, heq, hrest⟩
  rcases hconditional with ⟨-, rfl, rfl⟩ | ⟨hk, -⟩
  · rcases hassignment with ⟨-, rfl, rfl⟩ | ⟨hk, -⟩
    · rcases hsequence with ⟨-, rfl, -⟩ | ⟨hk, -⟩
      · exact hG
      · exact absurd hk hcomma
    · exact absurd (hk.symm.trans hassign) Bool.noConfusion
  · exact absurd hk hquestion

/-- A statement whose expression joins operands is one of operands and operators in turn. -/
theorem exists_operatorStatement {u : State}
    (hx : sequence (assignment (read n)) { s with noIn := false } = .ok x u)
    (hoperation : isOperation x = true) : ∃ first rest, OperatorStatement s first rest := by
  obtain ⟨e, u₁, he, ⟨hcomma, rfl, rfl⟩ | ⟨-, _, _, rfl⟩⟩ := sequence_ok hx
  swap
  · cases hoperation
  have hbegins := mt (isOperation_of_begins he) (by simp [hoperation])
  rw [not_or, Bool.not_eq_true] at hbegins
  obtain ⟨left, u₂, hleft, ⟨hassign, rfl, rfl⟩ | ⟨-, _, _, -, rfl, -⟩⟩ :=
    assignment_ok he hbegins.1 hbegins.2
  swap
  · cases hoperation
  obtain ⟨test, u₃, htest, ⟨hquestion, rfl, rfl⟩ | ⟨-, _, _, _, rfl⟩⟩ := conditional_ok hleft
  swap
  · cases hoperation
  obtain ⟨G, hG, hends⟩ := binary_gathers htest
  obtain ⟨k, v, hfirst, hchain⟩ := hG.operands
  exact ⟨G.first, G.rest, hbegins.2, hbegins.1,
    k, v, _, hfirst, hchain, hends, hquestion, hcomma, hassign⟩

/-- The expression of an accepted statement of operands and operators in turn is the one tree in
which these operands and operators, in this order, are grouped by precedence. And a statement
whose expression joins operands is of this kind. -/
theorem expressionStatement_grouping (h : expressionStatement (read n) s = .ok e t) :
    ∃ x, e.form = .expressionStatement x ∧
      (∀ first rest, OperatorStatement s first rest →
        ∃ G : Grouping, G.Shows x ∧ G.first = first ∧ G.rest = rest ∧ G.Grouped ∧
          ∀ G' : Grouping, G'.first = first → G'.rest = rest → G'.Grouped → G' = G) ∧
      (isOperation x = true → ∃ first rest, OperatorStatement s first rest) := by
  obtain ⟨x, u, v, hx, -, rfl, -⟩ := expressionStatement_ok h
  refine ⟨x, rfl, fun first rest hstatement => ?_, exists_operatorStatement hx⟩
  obtain ⟨G, v, hG, hfirst, hrest⟩ := hstatement.gathers hx
  exact ⟨G, hG.shows, hfirst, hrest, hG.grouped, fun G' hfirst' hrest' hG' =>
    hG'.unique hG.grouped (hfirst'.trans hfirst.symm) (hrest'.trans hrest.symm)⟩

/-- Operators of all directions, of which some bind as tight as others. -/
theorem expressionStatement_grouping_powers :
    let text := "a - b * c ** -d ** e - f;"
    let s : State := { State.initial text with token := (State.initial text).token.next }
    ∃ e t x first rest, expressionStatement (read 26) s = .ok e t ∧
      e.form = .expressionStatement x ∧ OperatorStatement s first rest ∧
      ∃ G : Grouping, G.Shows x ∧ G.first = first ∧ G.rest = rest ∧ G.Grouped := by
  intro text s
  have hread : ∃ e ∈ (expressionStatement (read 26)).run' s, e.kids.all isOperation = true := by
    decide +kernel
  obtain ⟨e, he, hoperation⟩ := hread
  obtain ⟨t, h⟩ := exists_of_mem_run' he
  obtain ⟨x, hform, hgrouping, hchain⟩ := expressionStatement_grouping h
  have hkids : e.kids = [x] := by rw [Node.kids, hform]; rfl
  obtain ⟨first, rest, hstatement⟩ := hchain (by simpa [hkids] using hoperation)
  obtain ⟨G, hshows, hfirst, hrest, hG, -⟩ := hgrouping first rest hstatement
  exact ⟨e, t, x, first, rest, h, hform, hstatement, G, hshows, hfirst, hrest, hG⟩

end ModuleBundler.Grammar
