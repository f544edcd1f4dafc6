import ModuleBundler.Proofs.Parts

/-!
# ModuleBundler — what an accepted pattern or declaration consists of

A pattern is a name or stands in brackets, and so does the literal that is written like it. Each
lemma takes one rule of the grammar apart: from what it has read follow the tokens that it found
and what it read on the way.

* `bindingTarget_ok`, `pattern_ok`, `toTarget_of_target` — what is read as a target.
* `elementEntry_ok`, `propertyEntry_ok`, `patternProperty_ok` — what stands in a pattern.
* `literalEntry_ok`, `literalProperty_ok`, `propertyAfter_ok` — what stands in a literal.
* `letStatement_ok`, `arrowFunction_ok`, `parenStatement_ok` — what patterns stand in.
-/

namespace ModuleBundler.Grammar

variable {g : Reading} {s t : State} {e : Node}

-- ---------------------------------------------------------------------------
-- Targets
-- ---------------------------------------------------------------------------

theorem identifier_ok (h : identifier s = .ok e t) : s.token.isBindingName = true ∧
    t = s.taken ∧
      e = .mk ⟨s.token.start.offset, s.token.stop.offset⟩ (.identifier s.token.value) := by
  obtain ⟨start, _, hpos, h⟩ := bind_ok h
  cases hpos
  obtain ⟨name, u, hname, h⟩ := bind_ok h
  obtain ⟨token, _, hcurrent, hname⟩ := bind_ok hname
  cases hcurrent
  split at hname
  · case isTrue hbinding =>
    cases hname
    cases h
    exact ⟨hbinding, rfl, rfl⟩
  · cases hname

/-- A target is a pattern in brackets or a name. -/
theorem bindingTarget_ok (h : bindingTarget g s = .ok e t) :
    ∃ u, t = { u with depth := u.depth - 1 } ∧
      (s.token.kind = .punct .openBrace ∧
          objectPattern g { s with depth := s.depth + 1 } = .ok e u ∨
        s.token.kind = .punct .openBracket ∧
          arrayPattern g { s with depth := s.depth + 1 } = .ok e u ∨
        identifier { s with depth := s.depth + 1 } = .ok e u) := by
  obtain ⟨u, hu, rfl⟩ := nested_ok h
  obtain ⟨k, _, hkind, hu⟩ := bind_ok hu
  cases hkind
  refine ⟨u, rfl, ?_⟩
  dsimp only at hu
  generalize s.token.kind = k at hu
  split at hu
  · exact .inl ⟨rfl, hu⟩
  · exact .inr (.inl ⟨rfl, hu⟩)
  · exact .inr (.inr hu)

/-- A bracket that opens a pattern. -/
def OpensPattern (s : State) : Prop :=
  s.token.kind = .punct .openBrace ∨ s.token.kind = .punct .openBracket

theorem pattern_ok {g : Reading} (hbracket : OpensPattern s) (h : bindingTarget g s = .ok e t) :
    ∃ u, t = { u with depth := u.depth - 1 } ∧
      (s.token.kind = .punct .openBrace ∧
          objectPattern g { s with depth := s.depth + 1 } = .ok e u ∨
        s.token.kind = .punct .openBracket ∧
          arrayPattern g { s with depth := s.depth + 1 } = .ok e u) := by
  obtain ⟨u, rfl, hobject | harray | hname⟩ := bindingTarget_ok h
  · exact ⟨u, rfl, .inl hobject⟩
  · exact ⟨u, rfl, .inr harray⟩
  · obtain ⟨hname, -, -⟩ := identifier_ok hname
    have hno : s.token.isBindingName = false := by
      unfold Token.isBindingName
      rcases hbracket with hk | hk <;> rw [hk] <;> rfl
    exact absurd (hno.symm.trans hname) Bool.noConfusion

/-- What is read as a target is one already. -/
theorem toTarget_of_target (h : read n .bindingTarget s = .ok x t) : x.toTarget = x := by
  cases n with
  | zero => cases h
  | succ n =>
    obtain ⟨u, -, ⟨-, hx⟩ | ⟨-, hx⟩ | hx⟩ := bindingTarget_ok h
    · obtain ⟨-, ps, v, -, -, -, rfl⟩ :=
        bracketed_ok (p := listUntil .closeBrace (propertyEntry (read n)))
          (f := .objectPattern) hx
      simp [Node.toTarget]
    · obtain ⟨-, es, v, -, -, -, rfl⟩ :=
        bracketed_ok (p := listUntil .closeBracket (elementEntry (read n)))
          (f := .arrayPattern) hx
      simp [Node.toTarget]
    · obtain ⟨-, -, rfl⟩ := identifier_ok hx
      simp [Node.toTarget]

theorem toTarget_arrayExpression (span : Text.Span) (es : List (Option Node)) :
    Node.toTarget (.mk span (.arrayExpression es)) =
      .mk span (.arrayPattern (es.map (Option.map Node.toTarget))) := by
  rw [Node.toTarget]
  congr 2
  refine List.map_congr_left fun e _ => ?_
  cases e <;> simp

/-- A name is the primary expression that it begins. -/
theorem primary_ok_of_name (h : primary g s = .ok e t)
    (hname : s.token.isBindingName = true) (hasync : s.token.beginsAsyncFunction = false) :
    identifier s = .ok e t := by
  obtain ⟨token, _, hcurrent, h⟩ := bind_ok h
  cases hcurrent
  obtain ⟨start, _, hpos, h⟩ := bind_ok h
  cases hpos
  have hkind : ∀ k, s.token.kind = k → k.isContextual = false → k = .name := by
    rintro k rfl hk
    unfold Token.isBindingName at hname
    split at hname
    · assumption
    · cases hname
    · cases hname
    · exact absurd (hk.symm.trans hname) Bool.noConfusion
  generalize hk : s.token.kind = k at h
  split at h
  all_goals try exact absurd (hkind _ hk rfl) (by decide)
  · rwa [hasync, if_neg Bool.false_ne_true] at h
  · rwa [if_pos hname] at h

-- ---------------------------------------------------------------------------
-- Entries
-- ---------------------------------------------------------------------------

theorem State.setNoIn_eq {noIn : Bool} (h : s.noIn = noIn) : { s with noIn := noIn } = s := by
  subst h
  rfl

theorem allowIn_ok {α : Type} {p : Parser α} {a : α} (hin : s.noIn = false)
    (h : allowIn p s = .ok a t) : ∃ u, p s = .ok a u ∧ t = { u with noIn := false } := by
  obtain ⟨u, hu, rfl⟩ := withIn_ok h
  rw [State.setNoIn_eq hin] at hu
  exact ⟨u, hu, by rw [hin]⟩

/-- A target with a default, or a target alone. -/
theorem withDefault_ok {start : Nat} {target : Node} {value : Parser Node}
    (h : withDefault start target value s = .ok e t) :
    s.token.kind = .punct .assign ∧ (∃ x, value s.taken = .ok x t ∧
        e = .mk ⟨start, t.lastStop⟩ (.assignmentPattern target x)) ∨
      s.token.kind ≠ .punct .assign ∧ e = target ∧ t = s := by
  obtain ⟨taken, u, haccept, hrest⟩ := bind_ok h
  rcases accept_ok haccept with ⟨hassign, rfl, rfl⟩ | ⟨hassign, rfl, rfl⟩
  · obtain ⟨x, v, hx, hrest⟩ := bind_ok hrest
    cases hrest
    exact .inl ⟨hassign, x, hx, rfl⟩
  · cases hrest
    exact .inr ⟨hassign, rfl, rfl⟩

/-- A spread, or what stands for one. -/
theorem spread_ok {q : Nat → Parser Node} (h : (do
      let start ← position
      if ← accept (.punct .ellipsis) then nodeFrom start (.spreadElement (← g .assignment))
      else q start) s = .ok e t) :
    s.token.kind = .punct .ellipsis ∧ (∃ x, g .assignment s.taken = .ok x t ∧
        e = .mk ⟨s.token.start.offset, t.lastStop⟩ (.spreadElement x)) ∨
      s.token.kind ≠ .punct .ellipsis ∧ q s.token.start.offset s = .ok e t := by
  obtain ⟨start, _, hpos, h⟩ := bind_ok h
  cases hpos
  obtain ⟨taken, u, haccept, hrest⟩ := bind_ok h
  rcases accept_ok haccept with ⟨hdots, rfl, rfl⟩ | ⟨hdots, rfl, rfl⟩
  · obtain ⟨x, v, hx, hrest⟩ := bind_ok hrest
    cases hrest
    exact .inl ⟨hdots, x, hx, rfl⟩
  · exact .inr ⟨hdots, hrest⟩

theorem elementEntry_ok {e : Entry (Option Node)} (h : elementEntry g s = .ok e t) :
    s.token.kind = .punct .comma ∧ e = .whole none ∧ t = s.taken ∨
      s.token.kind = .punct .ellipsis ∧ (∃ x, restElement g s = .ok x t ∧ e = .last (some x)) ∨
      s.token.kind ≠ .punct .comma ∧ s.token.kind ≠ .punct .ellipsis ∧
        ∃ x, bindingElement g s = .ok x t ∧ e = .plain (some x) := by
  obtain ⟨taken, u, haccept, hrest⟩ := bind_ok h
  rcases accept_ok haccept with ⟨hcomma, rfl, rfl⟩ | ⟨hcomma, rfl, rfl⟩
  · cases hrest
    exact .inl ⟨hcomma, rfl, rfl⟩
  obtain ⟨isRest, _, hat, hrest⟩ := bind_ok hrest
  cases hat
  by_cases hdots : u.token.kind = .punct .ellipsis
  · rw [if_pos (decide_eq_true hdots)] at hrest
    obtain ⟨x, v, hx, hrest⟩ := bind_ok hrest
    cases hrest
    exact .inr (.inl ⟨hdots, x, hx, rfl⟩)
  · rw [if_neg (by simp [hdots])] at hrest
    obtain ⟨x, v, hx, hrest⟩ := bind_ok hrest
    cases hrest
    exact .inr (.inr ⟨hcomma, hdots, x, hx, rfl⟩)

theorem literalEntry_ok {e : Entry (Option Node)} (hin : s.noIn = false)
    (h : literalEntry g s = .ok e t) :
    s.token.kind = .punct .comma ∧ e = .whole none ∧ t = s.taken ∨
      s.token.kind ≠ .punct .comma ∧ ∃ x u, spreadable g s = .ok x u ∧ e = .plain (some x) ∧
        t = { u with noIn := false } := by
  obtain ⟨taken, u, haccept, hrest⟩ := bind_ok h
  rcases accept_ok haccept with ⟨hcomma, rfl, rfl⟩ | ⟨hcomma, rfl, rfl⟩
  · cases hrest
    exact .inl ⟨hcomma, rfl, rfl⟩
  obtain ⟨x, v, hx, hrest⟩ := bind_ok hrest
  cases hrest
  obtain ⟨w, hw, rfl⟩ := allowIn_ok hin hx
  exact .inr ⟨hcomma, x, w, hw, rfl, rfl⟩

theorem propertyEntry_ok {e : Entry Node} (h : propertyEntry g s = .ok e t) :
    s.token.kind = .punct .ellipsis ∧ (∃ x, restElement g s = .ok x t ∧ e = .last x) ∨
      s.token.kind ≠ .punct .ellipsis ∧ ∃ x, patternProperty g s = .ok x t ∧ e = .plain x := by
  obtain ⟨isRest, _, hat, hrest⟩ := bind_ok h
  cases hat
  by_cases hdots : s.token.kind = .punct .ellipsis
  · rw [if_pos (decide_eq_true hdots)] at hrest
    obtain ⟨x, v, hx, hrest⟩ := bind_ok hrest
    cases hrest
    exact .inl ⟨hdots, x, hx, rfl⟩
  · rw [if_neg (by simp [hdots])] at hrest
    obtain ⟨x, v, hx, hrest⟩ := bind_ok hrest
    cases hrest
    exact .inr ⟨hdots, x, hx, rfl⟩

theorem literalProperty_ok {e : Entry Node} (hin : s.noIn = false)
    (h : (Entry.plain <$> allowIn (objectProperty g)) s = .ok e t) :
    ∃ x u, objectProperty g s = .ok x u ∧ e = .plain x ∧ t = { u with noIn := false } := by
  rw [map_eq_pure_bind] at h
  obtain ⟨x, v, hx, h⟩ := bind_ok h
  cases h
  obtain ⟨w, hw, rfl⟩ := allowIn_ok hin hx
  exact ⟨x, w, hw, rfl, rfl⟩

-- ---------------------------------------------------------------------------
-- Properties
-- ---------------------------------------------------------------------------

theorem patternProperty_ok (h : patternProperty g s = .ok e t) :
    ∃ key u, propertyKey g s = .ok key u ∧
      (u.token.kind = .punct .colon ∧ (∃ value, bindingElement g u.taken = .ok value t ∧
          e = .mk ⟨s.token.start.offset, t.lastStop⟩ (.property key value .init false)) ∨
        u.token.kind ≠ .punct .colon ∧ ∃ value,
          withDefault s.token.start.offset
            (.mk ⟨s.token.start.offset, u.lastStop⟩ (.identifier s.token.value))
            (allowIn (g .assignment)) u = .ok value t ∧
          e = .mk ⟨s.token.start.offset, t.lastStop⟩ (.property key value .init true)) := by
  obtain ⟨start, _, hpos, h⟩ := bind_ok h
  cases hpos
  obtain ⟨first, _, hcurrent, h⟩ := bind_ok h
  cases hcurrent
  obtain ⟨key, u, hkey, h⟩ := bind_ok h
  obtain ⟨taken, v, haccept, hrest⟩ := bind_ok h
  refine ⟨key, u, hkey, ?_⟩
  rcases accept_ok haccept with ⟨hcolon, rfl, rfl⟩ | ⟨hcolon, rfl, rfl⟩
  · obtain ⟨value, w, hvalue, hrest⟩ := bind_ok hrest
    cases hrest
    exact .inl ⟨hcolon, value, hvalue, rfl⟩
  · rw [if_neg Bool.false_ne_true] at hrest
    split at hrest
    · obtain ⟨name, _, hname, hrest⟩ := bind_ok hrest
      cases hname
      obtain ⟨value, w, hvalue, hrest⟩ := bind_ok hrest
      cases hrest
      exact .inr ⟨hcolon, value, hvalue, rfl⟩
    · cases hrest

/-- What nothing stands before is a method, a key and a value, or a name. -/
theorem propertyAfter_ok {start : Nat} {head : MemberHead} (hhead : head.isMethod = false)
    (h : propertyAfter g start head s = .ok e t) :
    ∃ key u, propertyKey g s = .ok key u ∧
      (u.token.kind = .punct .openParen ∨
        u.token.kind = .punct .colon ∧ (∃ value, g .assignment u.taken = .ok value t ∧
          e = .mk ⟨start, t.lastStop⟩ (.property key value .init false)) ∨
        u.token.kind ≠ .punct .colon ∧ ∃ value,
          withDefault s.token.start.offset
            (.mk ⟨s.token.start.offset, u.lastStop⟩ (.identifier s.token.value))
            (g .assignment) u = .ok value t ∧
          e = .mk ⟨start, t.lastStop⟩ (.property key value .init true)) := by
  obtain ⟨keyStart, _, hpos, h⟩ := bind_ok h
  cases hpos
  obtain ⟨first, _, hcurrent, h⟩ := bind_ok h
  cases hcurrent
  obtain ⟨key, u, hkey, h⟩ := bind_ok h
  refine ⟨key, u, hkey, ?_⟩
  obtain ⟨isParen, _, hat, h⟩ := bind_ok h
  cases hat
  by_cases hparen : u.token.kind = .punct .openParen
  · exact .inl hparen
  rw [if_neg (by simp [hparen]), hhead, if_neg Bool.false_ne_true] at h
  obtain ⟨taken, v, haccept, hrest⟩ := bind_ok h
  rcases accept_ok haccept with ⟨hcolon, rfl, rfl⟩ | ⟨hcolon, rfl, rfl⟩
  · obtain ⟨value, w, hvalue, hrest⟩ := bind_ok hrest
    cases hrest
    exact .inr (.inl ⟨hcolon, value, hvalue, rfl⟩)
  · rw [if_neg Bool.false_ne_true] at hrest
    split at hrest
    · obtain ⟨name, _, hname, hrest⟩ := bind_ok hrest
      cases hname
      obtain ⟨value, w, hvalue, hrest⟩ := bind_ok hrest
      cases hrest
      exact .inr (.inr ⟨hcolon, value, hvalue, rfl⟩)
    · cases hrest

/-- A word is a key, and no star is. -/
theorem propertyKey_ok {key : PropertyKey Node} (h : propertyKey g s = .ok key t) :
    s.token.kind ≠ .punct .star ∧ ∀ w, s.token.kind = .word w → t = s.taken := by
  obtain ⟨k, _, hkind, h⟩ := bind_ok h
  cases hkind
  constructor
  · intro hstar
    rw [hstar] at h
    obtain ⟨name, u, hname, -⟩ := bind_ok h
    obtain ⟨k, _, hkind, hname⟩ := bind_ok hname
    cases hkind
    rw [hstar, if_neg (by decide)] at hname
    cases hname
  · intro w hw
    rw [hw] at h
    obtain ⟨name, u, hname, h⟩ := bind_ok h
    cases h
    obtain ⟨k, _, hkind, hname⟩ := bind_ok hname
    cases hkind
    rw [hw] at hname
    cases hname
    rfl

/-- What stands before the key of a member: nothing. -/
def MemberHead.none : MemberHead := ⟨false, false, .init⟩

/-- A word behind which no key begins does not stand before a key. -/
theorem memberHead_ok {head : MemberHead} (h : memberHead s = .ok head t)
    (hstar : s.token.kind ≠ .punct .star)
    (hnext : ∀ w, s.token.kind = .word w →
      s.token.next.beginsKey = false ∧ s.token.next.kind ≠ .punct .star) :
    head = .none ∧ t = s := by
  have hmember : ∀ w, (s.token.kind = .word w && s.token.qualifiesMember) = false := by
    intro w
    by_cases hw : s.token.kind = .word w
    · simp [Token.qualifiesMember, hnext w hw]
    · simp [hw]
  have haccessor : ∀ w, (s.token.kind = .word w && s.token.qualifiesAccessor) = false := by
    intro w
    by_cases hw : s.token.kind = .word w
    · simp [Token.qualifiesAccessor, hnext w hw]
    · simp [hw]
  obtain ⟨isAsync, _, hqualifier, h⟩ := bind_ok h
  obtain ⟨token, _, hcurrent, hqualifier⟩ := bind_ok hqualifier
  cases hcurrent
  rw [hmember, if_neg Bool.false_ne_true] at hqualifier
  cases hqualifier
  obtain ⟨isGenerator, _, haccept, hrest⟩ := bind_ok h
  obtain ⟨-, rfl, rfl⟩ := (accept_ok haccept).resolve_left fun h => hstar h.1
  dsimp only at hrest
  rw [if_neg (by decide)] at hrest
  obtain ⟨kind, _, hkind, hrest⟩ := bind_ok hrest
  obtain ⟨token, _, hcurrent, hkind⟩ := bind_ok hkind
  cases hcurrent
  rw [haccessor, if_neg Bool.false_ne_true, haccessor, if_neg Bool.false_ne_true] at hkind
  cases hkind
  cases hrest
  exact ⟨rfl, rfl⟩

-- ---------------------------------------------------------------------------
-- Declarations and parameters
-- ---------------------------------------------------------------------------

theorem endOfStatement_ok {y : Unit} (h : endOfStatement s = .ok y t) :
    s.token.kind = .punct .semicolon ∧ t = s.taken ∨
      s.token.kind ≠ .punct .semicolon ∧ t = s := by
  obtain ⟨taken, u, haccept, hrest⟩ := bind_ok h
  rcases accept_ok haccept with ⟨hk, rfl, rfl⟩ | ⟨hk, rfl, rfl⟩
  · cases hrest
    exact .inl ⟨hk, rfl⟩
  · obtain ⟨token, _, hcurrent, hrest⟩ := bind_ok hrest
    cases hcurrent
    split at hrest
    · cases hrest
      exact .inr ⟨hk, rfl⟩
    · cases hrest

theorem declarator_ok (h : declarator g s = .ok e t) :
    ∃ target u value, g .bindingTarget s = .ok target u ∧
      (u.token.kind = .punct .assign ∧ (∃ y, g .assignment u.taken = .ok y t ∧ value = some y) ∨
        u.token.kind ≠ .punct .assign ∧ value = none ∧ t = u) ∧
      e = .mk ⟨s.token.start.offset, t.lastStop⟩ (.variableDeclarator target value) := by
  obtain ⟨start, _, hpos, h⟩ := bind_ok h
  cases hpos
  obtain ⟨target, u, htarget, h⟩ := bind_ok h
  obtain ⟨taken, v, haccept, hrest⟩ := bind_ok h
  rcases accept_ok haccept with ⟨hk, rfl, rfl⟩ | ⟨hk, rfl, rfl⟩
  · obtain ⟨value, w, hvalue, hrest⟩ := bind_ok hrest
    rw [map_eq_pure_bind] at hvalue
    obtain ⟨y, _, hy, hvalue⟩ := bind_ok hvalue
    cases hvalue
    cases hrest
    exact ⟨target, u, _, htarget, .inl ⟨hk, y, hy, rfl⟩, rfl⟩
  · cases hrest
    exact ⟨target, _, _, htarget, .inr ⟨hk, rfl, rfl⟩, rfl⟩

/-- A statement that begins with `let` and a bracket declares patterns. -/
theorem letStatement_ok (h : statement g s = .ok e t)
    (hlet : s.token.kind = .word .letKw) (hopens : OpensPattern s.taken) :
    ∃ d u, declarator g { s.taken with depth := s.depth + 1, noIn := false } = .ok d u ∧
      (u.token.kind ≠ .punct .comma → ∃ v span,
        endOfStatement { u with noIn := s.noIn } = .ok () v ∧
          e = .mk span (.variableDeclaration .letDecl [d]) ∧ ∃ k, t = { v with depth := k }) := by
  have hbegins : s.token.beginsLetDeclaration = true := by
    have hnext : s.token.next.kind = .punct .openBrace ∨ s.token.next.kind = .punct .openBracket :=
      hopens
    rcases hnext with hk | hk <;> simp [Token.beginsLetDeclaration, hk]
  obtain ⟨v, hv, rfl⟩ := nested_ok h
  obtain ⟨token, _, hcurrent, hv⟩ := bind_ok hv
  cases hcurrent
  dsimp only at hv
  rw [hlet] at hv
  simp only [hbegins, if_true] at hv
  obtain ⟨declaration, w, hdeclaration, hv⟩ := bind_ok hv
  obtain ⟨w', hw', rfl⟩ := withIn_ok hdeclaration
  obtain ⟨start, _, hpos, hw'⟩ := bind_ok hw'
  cases hpos
  obtain ⟨kind, _, hkind, hw'⟩ := bind_ok hw'
  cases hkind
  dsimp only at hw'
  rw [hlet] at hw'
  obtain ⟨_, _, hadvance, hw'⟩ := bind_ok hw'
  cases hadvance
  obtain ⟨ds, x, hds, hw'⟩ := bind_ok hw'
  cases hw'
  obtain ⟨d, u, hd, hrest⟩ := separated_ok hds
  refine ⟨d, u, hd, fun hcomma => ?_⟩
  obtain ⟨-, rfl, rfl⟩ := hrest.resolve_right fun h => hcomma h.1
  obtain ⟨_, y, hend, hv⟩ := bind_ok hv
  cases hv
  exact ⟨_, _, hend, rfl, _, rfl⟩

/-- Parameters from a parenthesis on. -/
theorem parameters_ok {g : Reading} {ps : List Node} (h : parameters g s = .ok ps t) :
    ∃ u, listUntil .closeParen (parameterEntry g) { s.taken with noIn := false } = .ok ps u ∧
      u.token.kind = .punct .closeParen ∧ t = { u.taken with noIn := s.noIn } := by
  obtain ⟨_, v, hopen, h⟩ := bind_ok h
  obtain ⟨-, rfl⟩ := expect_ok hopen
  obtain ⟨ps', w, hlist, h⟩ := bind_ok h
  obtain ⟨u, hu, rfl⟩ := withIn_ok hlist
  obtain ⟨_, x, hexpect, h⟩ := bind_ok h
  obtain ⟨hclose, rfl⟩ := expect_ok hexpect
  cases h
  exact ⟨u, hu, hclose, rfl⟩

theorem parameterEntry_ok {g : Reading} {e : Entry Node} (h : parameterEntry g s = .ok e t)
    (hs : s.token.kind ≠ .punct .ellipsis) : ∃ y, bindingElement g s = .ok y t ∧ e = .plain y := by
  obtain ⟨isRest, _, hat, h⟩ := bind_ok h
  cases hat
  rw [if_neg (by simp [hs])] at h
  obtain ⟨y, u, hy, h⟩ := bind_ok h
  cases h
  exact ⟨y, hy, rfl⟩

/-- Behind the parameters of an arrow function stands an arrow. -/
theorem arrowFunction_ok (h : arrowFunction g s = .ok e t)
    (hopen : s.token.kind = .punct .openParen) :
    ∃ ps u, Grammar.parameters g s = .ok ps u ∧ u.token.kind = .punct .arrow := by
  obtain ⟨start, _, hpos, h⟩ := bind_ok h
  cases hpos
  obtain ⟨token, _, hcurrent, h⟩ := bind_ok h
  cases hcurrent
  dsimp only at h
  rw [if_neg (by simp [hopen])] at h
  obtain ⟨isParen, _, hat, h⟩ := bind_ok h
  cases hat
  rw [if_pos (decide_eq_true hopen)] at h
  obtain ⟨ps, u, hps, h⟩ := bind_ok h
  obtain ⟨isLater, _, hlater, h⟩ := bind_ok h
  cases hlater
  split at h
  · cases h
  · obtain ⟨_, v, hexpect, -⟩ := bind_ok h
    exact ⟨ps, u, hps, (expect_ok hexpect).1⟩

-- ---------------------------------------------------------------------------
-- Parentheses
-- ---------------------------------------------------------------------------

/-- An expression in parentheses from its first parenthesis on. -/
theorem parenthesized_ok (h : primary g s = .ok e t)
    (hopen : s.token.kind = .punct .openParen) :
    ∃ y u span, expression g { s.taken with noIn := false } = .ok y u ∧
      u.token.kind = .punct .closeParen ∧ t = { u.taken with noIn := s.noIn } ∧
      e = .mk span (.parenthesizedExpression y) := by
  obtain ⟨token, _, hcurrent, h⟩ := bind_ok h
  cases hcurrent
  obtain ⟨start, _, hpos, h⟩ := bind_ok h
  cases hpos
  rw [hopen] at h
  obtain ⟨start, _, hpos, h⟩ := bind_ok h
  cases hpos
  obtain ⟨y, v, hinner, h⟩ := bind_ok h
  cases h
  obtain ⟨_, w, hexpect, hinner⟩ := bind_ok hinner
  obtain ⟨-, rfl⟩ := expect_ok hexpect
  obtain ⟨_, x, hy, hinner⟩ := bind_ok hinner
  obtain ⟨u, hu, rfl⟩ := withIn_ok hy
  obtain ⟨_, z, hexpect, hinner⟩ := bind_ok hinner
  obtain ⟨hclose, rfl⟩ := expect_ok hexpect
  cases hinner
  exact ⟨_, u, _, hu, hclose, rfl, rfl⟩

theorem parenStatement_ok (h : statement g s = .ok e t)
    (hopen : s.token.kind = .punct .openParen) :
    ∃ u, expressionStatement g { s with depth := s.depth + 1 } = .ok e u ∧
      t = { u with depth := u.depth - 1 } := by
  have hname : s.token.isBindingName = false := by
    unfold Token.isBindingName
    rw [hopen]
    rfl
  obtain ⟨u, hu, rfl⟩ := nested_ok h
  obtain ⟨token, _, hcurrent, hu⟩ := bind_ok hu
  cases hcurrent
  dsimp only at hu
  rw [hopen] at hu
  simp only [otherStatement, hname, Bool.false_and, Bool.false_eq_true, if_false] at hu
  exact ⟨u, hu, rfl⟩

theorem statement_of_item (h : moduleItem (read (m + 1)) s = .ok e t)
    (himport : s.token.kind ≠ .word .importKw) (hexport : s.token.kind ≠ .word .exportKw) :
    statement (read m) s = .ok e t := by
  obtain ⟨token, _, hcurrent, h⟩ := bind_ok h
  cases hcurrent
  generalize hk : s.token.kind = k at h
  split at h
  · exact absurd hk himport
  · exact absurd hk hexport
  · exact h

end ModuleBundler.Grammar
