import ModuleBundler.Proofs.Nesting
import ModuleBundler.Proofs.Programs

/-!
# ModuleBundler — nesting without a limit

The callee of `new` is read without being counted, and it may begin with `new`
itself. So a text of `new new … x` is accepted, however long it is, and each `new`
of it is a step further on.

* `News` — a token after which there are as many more `new` and then a name.
* `construction_news` — what is read from such a token nests as often.
* `parse_newText` — the texts of this kind are accepted.
-/

namespace ModuleBundler

open Text (Cursor isNamePart)

-- ---------------------------------------------------------------------------
-- Tokens
-- ---------------------------------------------------------------------------

section Tokens

variable {c : Char} (cs : List Char)

theorem skipInterpreterLine_of_ne (offset : Nat) (h : c ≠ '#') :
    skipInterpreterLine ⟨offset, c :: cs⟩ = ⟨offset, c :: cs⟩ := by
  unfold skipInterpreterLine
  split
  · rename_i heq
    simp only [List.cons.injEq] at heq
    exact absurd heq.1 h
  · rfl

/-- A blank before a token makes no difference. -/
theorem Token.after_blank (offset : Nat) (h : c ≠ '#') :
    Token.after ⟨offset, ' ' :: c :: cs⟩ = Token.after ⟨offset + 1, c :: cs⟩ := by
  have hblank : skipTrivia .outside false offset (' ' :: c :: cs) =
      skipTrivia .outside false (offset + 1) (c :: cs) := by
    rw [skipTrivia]
    rfl
  have hspace := skipInterpreterLine_of_ne (c :: cs) offset (show ' ' ≠ '#' by decide)
  simp only [Token.after, Token.next, skipInterpreterLine_of_ne cs _ h, hspace, hblank]

theorem Token.after_new (offset : Nat) :
    Token.after ⟨offset, 'n' :: 'e' :: 'w' :: ' ' :: cs⟩ =
      ⟨.word .newKw, ⟨offset, 'n' :: 'e' :: 'w' :: ' ' :: cs⟩, ⟨offset + 3, ' ' :: cs⟩, "new", {},
        none⟩ := by
  have htrivia : skipTrivia .outside false offset ('n' :: 'e' :: 'w' :: ' ' :: cs) =
      ⟨false, ⟨offset, 'n' :: 'e' :: 'w' :: ' ' :: cs⟩, none⟩ := by
    rw [skipTrivia]
    rfl
  have hskip : Cursor.skipWhile isNamePart ⟨offset, 'n' :: 'e' :: 'w' :: ' ' :: cs⟩ =
      ⟨offset + 3, ' ' :: cs⟩ := rfl
  have htext : Cursor.textTo ⟨offset, 'n' :: 'e' :: 'w' :: ' ' :: cs⟩ ⟨offset + 3, ' ' :: cs⟩ =
      "new" := by
    have hn : 'n'.utf8Size = 1 := rfl
    have he : 'e'.utf8Size = 1 := rfl
    have hw : 'w'.utf8Size = 1 := rfl
    simp [Cursor.textTo, Cursor.textUpTo, Cursor.textUpTo.go, hn, he, hw]
  have hscan : scanAt {} ⟨offset, 'n' :: 'e' :: 'w' :: ' ' :: cs⟩ =
      scanWord {} ⟨offset, 'n' :: 'e' :: 'w' :: ' ' :: cs⟩ := rfl
  have hspace := skipInterpreterLine_of_ne ('e' :: 'w' :: ' ' :: cs) offset
    (show 'n' ≠ '#' by decide)
  simp only [Token.after, Token.next, hspace, htrivia]
  rw [hscan, scanWord, hskip, htext]
  rfl

theorem Token.after_x (offset : Nat) :
    (Token.after ⟨offset, ['x']⟩).kind = .name ∧
      (Token.after ⟨offset, ['x']⟩).start.offset = offset ∧
      (Token.after ⟨offset, ['x']⟩).stop = ⟨offset + 1, []⟩ := by
  have hspace := skipInterpreterLine_of_ne [] offset (show 'x' ≠ '#' by decide)
  have htrivia : skipTrivia .outside false offset ['x'] = ⟨false, ⟨offset, ['x']⟩, none⟩ := by
    rw [skipTrivia]
    rfl
  have htext : Cursor.textTo ⟨offset, ['x']⟩ ⟨offset + 1, []⟩ = "x" := by
    simp [Cursor.textTo, Cursor.textUpTo, Cursor.textUpTo.go]
  have hskip : Cursor.skipWhile isNamePart ⟨offset, ['x']⟩ = ⟨offset + 1, []⟩ := rfl
  have hscan : scanAt {} ⟨offset, ['x']⟩ = scanWord {} ⟨offset, ['x']⟩ := rfl
  simp only [Token.after, Token.next, hspace, htrivia]
  rw [hscan, scanWord, hskip, htext]
  exact ⟨rfl, rfl, rfl⟩

end Tokens

/-- A token `new` after which there are as many more of it, then a name and the end
of the text. -/
inductive News : Nat → Token → Prop
  | last {t : Token} (hkind : t.kind = .word .newKw) (hlt : t.start.offset < t.next.start.offset)
      (hname : t.next.kind = .name) (hend : t.next.next.kind = .endOfFile) : News 0 t
  | more {k : Nat} {t : Token} (hkind : t.kind = .word .newKw)
      (hlt : t.start.offset < t.next.start.offset) (hnext : News k t.next) : News (k + 1) t

theorem News.kind_eq {k : Nat} {t : Token} (h : News k t) : t.kind = .word .newKw := by
  cases h <;> assumption

/-- So many `new` and a name. -/
def newChars : Nat → List Char
  | 0 => ['x']
  | k + 1 => 'n' :: 'e' :: 'w' :: ' ' :: newChars k

theorem newChars_eq_cons (k : Nat) : ∃ c cs, newChars k = c :: cs ∧ c ≠ '#' := by
  cases k with
  | zero => exact ⟨'x', [], rfl, by decide⟩
  | succ k => exact ⟨'n', _, rfl, by decide⟩

/-- After a `new` comes what is after the blank behind it. -/
theorem next_newChars (k offset : Nat) :
    (Token.after ⟨offset, newChars (k + 1)⟩).next = Token.after ⟨offset + 4, newChars k⟩ := by
  obtain ⟨c, cs, hchars, hc⟩ := newChars_eq_cons k
  rw [newChars, Token.after_new, Token.next_eq, hchars, Token.after_blank cs _ hc]

theorem start_newChars (k offset : Nat) :
    (Token.after ⟨offset, newChars k⟩).start.offset = offset := by
  cases k with
  | zero => exact (Token.after_x offset).2.1
  | succ k => rw [newChars, Token.after_new]

theorem news_newChars (k offset : Nat) : News k (Token.after ⟨offset, newChars (k + 1)⟩) := by
  have hkind : ∀ k offset, (Token.after ⟨offset, newChars (k + 1)⟩).kind = .word .newKw := by
    intro k offset
    rw [newChars, Token.after_new]
  have hlt : ∀ k offset, (Token.after ⟨offset, newChars (k + 1)⟩).start.offset <
      (Token.after ⟨offset, newChars (k + 1)⟩).next.start.offset := by
    intro k offset
    rw [next_newChars, start_newChars, start_newChars]
    omega
  induction k generalizing offset with
  | zero =>
    obtain ⟨hname, -, hstop⟩ := Token.after_x (offset + 4)
    have hnext := next_newChars 0 offset
    refine .last (hkind _ _) (hlt _ _) (by rw [hnext]; exact hname) ?_
    rw [hnext, Token.next_eq, newChars, hstop]
    rfl
  | succ k ih =>
    refine .more (hkind _ _) (hlt _ _) ?_
    rw [next_newChars]
    exact ih _

namespace Grammar

-- ---------------------------------------------------------------------------
-- Steps of a parser
-- ---------------------------------------------------------------------------

section Steps

variable {α β : Type} {p : Parser α} {f : α → Parser β} {s t : State} {a : α} {g : Reading}

/-- Looking at the state is a step that leaves it alone. -/
theorem bind_look (v : State → α) : ((fun s => .ok (v s) s) >>= f) s = f (v s) s := rfl

theorem accept_of_ne {k : TokenKind} (h : s.token.kind ≠ k) : accept k s = .ok false s := by
  unfold accept isAt
  rw [bind_look, decide_eq_false h]
  rfl

theorem accept_of_eq {k : TokenKind} (h : s.token.kind = k) : accept k s = .ok true s.taken := by
  unfold accept isAt
  rw [bind_look, decide_eq_true h]
  rfl

theorem expect_of_eq {k : TokenKind} (h : s.token.kind = k) : expect k s = .ok () s.taken := by
  unfold expect
  rw [bind_of_ok (accept_of_eq h)]
  rfl

/-- Nothing is accessed at the end of a text. -/
theorem accesses_at_end (start : Nat) (calls isOptional : Bool) (n : Nat) (e : Node)
    (h : s.token.kind = .endOfFile) :
    accesses g start calls (n + 1) isOptional e s = .ok e s := by
  unfold accesses kind
  rw [bind_look, h]
  rfl

theorem identifier_of_name (h : s.token.kind = .name) :
    identifier s =
      .ok (.mk ⟨s.token.start.offset, s.token.stop.offset⟩ (.identifier s.token.value)) s.taken := by
  have hname : s.token.isBindingName = true := by
    unfold Token.isBindingName
    rw [h]
  have hbinding : bindingName s = .ok s.token.value s.taken := by
    unfold bindingName current
    rw [bind_look, if_pos hname]
    rfl
  unfold identifier position
  rw [bind_look, bind_of_ok hbinding]
  rfl

theorem primary_of_name (h : s.token.kind = .name) : primary g s = identifier s := by
  have hname : s.token.isBindingName = true := by
    unfold Token.isBindingName
    rw [h]
  unfold primary current position
  rw [bind_look, bind_look, h]
  simp only [hname, if_true]

end Steps

-- ---------------------------------------------------------------------------
-- Chains of `new`
-- ---------------------------------------------------------------------------

section Chains

variable {s t : State} {g : Reading} {callee : Node}

/-- A construction without arguments at the end of a text, after its callee. -/
theorem construction_of_callee (hkind : s.token.kind = .word .newKw)
    (hdot : s.token.next.kind ≠ .punct .dot)
    (hcallee : (match s.token.next.kind with
      | .word .newKw => g .construction
      | .word .superKw => word .superExpression
      | _ => primary g) s.taken = .ok callee t)
    (hend : t.token.kind = .endOfFile) :
    construction g s =
      .ok (.mk ⟨s.token.start.offset, t.lastStop⟩ (.newExpression callee [])) t := by
  have hrest : (do
      let callee ← accesses g s.token.next.start.offset false (← rounds) false callee
      let values ← if ← isAt (.punct .openParen) then arguments g else pure []
      nodeFrom s.token.start.offset (.newExpression callee values)) t =
      .ok (.mk ⟨s.token.start.offset, t.lastStop⟩ (.newExpression callee [])) t := by
    unfold rounds isAt
    rw [bind_look, bind_of_ok (accesses_at_end _ _ _ _ _ hend), bind_look, hend]
    rfl
  unfold construction position
  rw [bind_look, bind_of_ok (expect_of_eq hkind), bind_of_ok (accept_of_ne hdot)]
  simp only [Bool.false_eq_true, if_false]
  unfold kind
  rw [bind_look, bind_look]
  obtain ⟨k, hk⟩ : ∃ k, s.token.next.kind = k := ⟨_, rfl⟩
  rw [show s.taken.token.kind = k from hk]
  rw [hk] at hcallee
  split
  · exact (bind_of_ok hcallee).trans hrest
  · exact (bind_of_ok hcallee).trans hrest
  · split at hcallee
    · contradiction
    · contradiction
    · exact (bind_of_ok hcallee).trans hrest

omit g in
/-- Going to the callee is a step further on. -/
theorem furtherSteps_callee {start stop : Nat} (hlt : start < callee.span.start) (p : Position) :
    (Node.mk ⟨start, stop⟩ (.newExpression callee [])).furtherSteps (0 :: p) =
      1 + callee.furtherSteps p := by
  unfold Node.furtherSteps
  rw [Node.steps_cons rfl]
  show (decide (start < callee.span.start)).toNat + _ = _
  rw [decide_eq_true hlt]
  rfl

/-- From the first `new` of a chain on, what is read nests once for each of them. -/
theorem construction_news {k n : Nat} (h : News k s.token) (hrounds : k ≤ n) :
    ∃ e t, construction (read n) s = .ok e t ∧ t.token.kind = .endOfFile ∧
      e.span.start = s.token.start.offset ∧
      (∃ m, e.at? (List.replicate (k + 1) 0) = some m) ∧
      e.furtherSteps (List.replicate (k + 1) 0) = k + 1 := by
  induction k generalizing s n with
  | zero =>
    obtain ⟨hkind, hlt, hname, hend⟩ := h
    have hcallee := identifier_of_name (s := s.taken) hname
    rw [← primary_of_name (g := read n) hname] at hcallee
    have hread := construction_of_callee (g := read n) hkind (by rw [hname]; nofun)
      (by rw [hname]; exact hcallee) hend
    refine ⟨_, _, hread, hend, rfl, ⟨_, rfl⟩, ?_⟩
    exact furtherSteps_callee hlt []
  | succ k ih =>
    cases h with
    | more hkind hlt hnext =>
      obtain ⟨n, rfl⟩ : ∃ m, n = m + 1 := ⟨n - 1, by omega⟩
      obtain ⟨callee, t, hcallee, hend, hstart, ⟨m, hm⟩, hsteps⟩ :=
        ih (s := s.taken) (n := n) hnext (by omega)
      have hread := construction_of_callee (g := read (n + 1)) hkind
        (by rw [hnext.kind_eq]; nofun) (by rw [hnext.kind_eq]; exact hcallee) hend
      refine ⟨_, t, hread, hend, rfl, ⟨m, ?_⟩, ?_⟩
      · rw [List.replicate_succ]
        exact hm
      · rw [List.replicate_succ, furtherSteps_callee, hsteps]
        · omega
        · rw [hstart]
          exact hlt

end Chains

-- ---------------------------------------------------------------------------
-- Up to the end of a text
-- ---------------------------------------------------------------------------

/-- A parser that succeeds at the end of the text, with a result that has a
property. -/
def ToEnd {α : Type} (p : Parser α) (s : State) (P : α → Prop) : Prop :=
  ∃ a t, p s = .ok a t ∧ t.token.kind = .endOfFile ∧ P a

namespace ToEnd

variable {α β : Type} {p : Parser α} {f : α → Parser β} {s : State} {P : α → Prop} {Q : β → Prop}

theorem bind (h : ToEnd p s P)
    (hf : ∀ a t, t.token.kind = .endOfFile → P a → ToEnd (f a) t Q) : ToEnd (p >>= f) s Q := by
  obtain ⟨a, t, ha, ht, hP⟩ := h
  unfold ToEnd
  rw [bind_of_ok ha]
  exact hf a t ht hP

theorem pure {a : α} (hs : s.token.kind = .endOfFile) (h : P a) :
    ToEnd (Pure.pure a : Parser α) s P :=
  ⟨a, s, rfl, hs, h⟩

theorem look {v : State → α} (h : ToEnd (f (v s)) s Q) : ToEnd ((fun s => .ok (v s) s) >>= f) s Q :=
  h

theorem node {start : Nat} {form : Form Node} {P : Node → Prop} (hs : s.token.kind = .endOfFile)
    (h : ∀ stop, P (.mk ⟨start, stop⟩ form)) : ToEnd (nodeFrom start form) s P :=
  ⟨_, s, rfl, hs, h _⟩

theorem nested (h : ToEnd p { s with depth := s.depth + 1 } P) (hroom : s.depth < maxDepth) :
    ToEnd (Grammar.nested p) s P := by
  obtain ⟨a, t, ha, ht, hP⟩ := h
  refine ⟨a, { t with depth := t.depth - 1 }, ?_, ht, hP⟩
  unfold Grammar.nested
  rw [if_pos hroom, ha]

theorem allowIn (h : ToEnd p { s with noIn := false } P) : ToEnd (Grammar.allowIn p) s P := by
  obtain ⟨a, t, ha, ht, hP⟩ := h
  refine ⟨a, { t with noIn := s.noIn }, ?_, ht, hP⟩
  unfold Grammar.allowIn withIn
  rw [ha]

/-- At the end of a text no other token is taken. -/
theorem notAccepted {k : TokenKind} {f : Bool → Parser β} (hs : s.token.kind = .endOfFile)
    (hk : k ≠ .endOfFile) (h : ToEnd (f false) s Q) : ToEnd (accept k >>= f) s Q := by
  unfold ToEnd
  rw [bind_of_ok (accept_of_ne (by rw [hs]; exact hk.symm))]
  exact h

theorem accesses {g : Reading} {start : Nat} {calls isOptional : Bool} {n : Nat} {e : Node}
    {P : Node → Prop} (hs : s.token.kind = .endOfFile) (h : P e) :
    ToEnd (Grammar.accesses g start calls (n + 1) isOptional e) s P :=
  ⟨e, s, accesses_at_end _ _ _ _ _ hs, hs, h⟩

end ToEnd

section Expressions

variable {s : State} {g : Reading} {P : Node → Prop} (hkind : s.token.kind = .word .newKw)
  (hnew : ∀ depth noIn, ToEnd (construction g) { s with depth := depth, noIn := noIn } P)
include hkind hnew

theorem leftHandSide_of_new (depth : Nat) (noIn : Bool) :
    ToEnd (leftHandSide g) { s with depth := depth, noIn := noIn } P := by
  unfold leftHandSide position kind
  refine .look (.look ?_)
  rw [hkind]
  refine (hnew depth noIn).bind fun e t ht he => ?_
  unfold rounds
  exact .look (.accesses ht he)

theorem unary_of_new {depth : Nat} (noIn : Bool) (hroom : depth < maxDepth) :
    ToEnd (unary g) { s with depth := depth, noIn := noIn } P := by
  unfold unary position kind
  refine .nested (.look (.look ?_)) hroom
  rw [hkind]
  simp only [isUnaryOperator, isUpdateOperator, Bool.false_eq_true, if_false]
  unfold updated position current
  refine .look ((leftHandSide_of_new hkind hnew (depth + 1) noIn).bind fun e t ht he => .look ?_)
  rw [ht]
  exact .pure ht he

theorem conditional_of_new {depth : Nat} (noIn : Bool) (hroom : depth < maxDepth) :
    ToEnd (conditional g) { s with depth := depth, noIn := noIn } P := by
  have hbinary : ToEnd (binary g 0) { s with depth := depth, noIn := noIn } P := by
    unfold binary position rounds
    refine .look ((unary_of_new hkind hnew noIn hroom).bind fun e t ht he => .look ?_)
    unfold operations kind goesOn
    refine .look (.look ?_)
    rw [ht]
    exact .pure ht he
  unfold conditional position
  exact .look (hbinary.bind fun e t ht he => .notAccepted ht (by decide) (.pure ht he))

theorem assignment_of_new {depth : Nat} (noIn : Bool) (hroom : depth + 1 < maxDepth) :
    ToEnd (assignment g) { s with depth := depth, noIn := noIn } P := by
  have harrow : ∀ bound, s.token.beginsArrowFunction bound = false := by
    intro bound
    unfold Token.beginsArrowFunction Token.isBindingName
    rw [hkind]
    rfl
  unfold assignment isAt atArrowFunction position kind
  refine .nested (.look ?_) (show depth < maxDepth by omega)
  rw [hkind]
  refine .look ?_
  rw [harrow]
  refine .look ((conditional_of_new hkind hnew noIn hroom).bind fun e t ht he => .look ?_)
  rw [ht]
  exact .pure ht he

theorem statement_of_new {Q : Node → Prop} (depth : Nat) (hroom : depth + 2 < maxDepth)
    (hQ : ∀ e span, P e → Q (.mk span (.expressionStatement e))) :
    ToEnd (statement g) { s with depth := depth } Q := by
  have hsequence : ToEnd (sequence (assignment g))
      { s with depth := depth + 1, noIn := false } P := by
    unfold sequence position separated rounds
    refine .look ?_
    refine ToEnd.bind (P := fun es => ∃ e, es = [e] ∧ P e) (.look ?_) ?_
    · refine (assignment_of_new hkind hnew false (by omega)).bind fun e t ht he => ?_
      exact .notAccepted ht (by decide) (.pure ht ⟨e, rfl, he⟩)
    · rintro es t ht ⟨e, rfl, he⟩
      exact .pure ht he
  have hexpression : ToEnd (expressionStatement g) { s with depth := depth + 1 } Q := by
    unfold expressionStatement position
    refine .look (hsequence.allowIn.bind fun e t ht he => ?_)
    refine ToEnd.bind (P := fun _ => True) ?_ fun _ t ht _ => .node ht fun stop => hQ e _ he
    unfold endOfStatement current
    refine .notAccepted ht (by decide) (.look ?_)
    have hends : t.token.endsStatement = true := by
      unfold Token.endsStatement
      rw [ht]
      rfl
    rw [if_pos hends]
    exact .pure ht trivial
  unfold statement current
  refine .nested (.look ?_) (show depth < maxDepth by omega)
  rw [hkind]
  have hname : s.token.isBindingName = false := by
    unfold Token.isBindingName
    rw [hkind]
    rfl
  unfold otherStatement
  rw [hname]
  exact hexpression

end Expressions

theorem moduleItem_of_new {s : State} {n : Nat} {P Q : Node → Prop}
    (hkind : s.token.kind = .word .newKw) (hroom : s.depth + 2 < maxDepth)
    (hnew : ∀ depth noIn, ToEnd (construction (read n)) { s with depth := depth, noIn := noIn } P)
    (hQ : ∀ e span, P e → Q (.mk span (.expressionStatement e))) :
    ToEnd (moduleItem (read (n + 1))) s Q := by
  unfold moduleItem current
  refine .look ?_
  rw [hkind]
  exact statement_of_new hkind hnew s.depth hroom hQ

end Grammar

-- ---------------------------------------------------------------------------
-- Texts
-- ---------------------------------------------------------------------------

/-- A text of so many `new` and one more, and a name. -/
def newText (k : Nat) : String := String.ofList (newChars (k + 1))

theorem toList_newText (k : Nat) : (newText k).toList = newChars (k + 1) := by
  rw [newText, String.toList_ofList]

theorem size_newText (k : Nat) : (newText k).utf8ByteSize = 4 * k + 5 := by
  have hlength : ∀ k, String.utf8Len (newChars k) = 4 * k + 1 := by
    intro k
    induction k with
    | zero => rfl
    | succ k ih =>
      have hsize : String.utf8Len ['n', 'e', 'w', ' '] = 4 := rfl
      have hcons : newChars (k + 1) = ['n', 'e', 'w', ' '] ++ newChars k := rfl
      rw [hcons, String.utf8Len_append, hsize, ih]
      omega
  have hstart := (Cursor.Before.refl (Cursor.start (newText k))).offset_add_rest
  rw [Cursor.start, toList_newText, hlength] at hstart
  simp only at hstart
  omega

/-- Texts of `new` are accepted, and nest as often. -/
theorem parse_newText (k : Nat) : ∃ tree p m, Node.parse (newText k) = .ok tree ∧
    tree.at? p = some m ∧ k < tree.furtherSteps p := by
  have hsize := size_newText k
  obtain ⟨s, hs⟩ : ∃ s, s = Grammar.State.between (newText k) (Cursor.start (newText k)) :=
    ⟨_, rfl⟩
  have htoken : s.token = Token.after ⟨0, newChars (k + 1)⟩ := by
    rw [hs, ← toList_newText]
    rfl
  have hnews := news_newChars k 0
  rw [← htoken] at hnews
  have hnew : ∀ depth noIn, Grammar.ToEnd (Grammar.construction (Grammar.read (4 * k + 5)))
      { s with depth := depth, noIn := noIn } fun e =>
        (∃ m, e.at? (List.replicate (k + 1) 0) = some m) ∧
          e.furtherSteps (List.replicate (k + 1) 0) = k + 1 := by
    intro depth noIn
    obtain ⟨e, t, he, ht, -, hposition, hsteps⟩ := Grammar.construction_news
      (s := { s with depth := depth, noIn := noIn }) (n := 4 * k + 5) hnews (by omega)
    exact ⟨e, t, he, ht, hposition, hsteps⟩
  have hroom : s.depth + 2 < Grammar.maxDepth := by
    rw [hs]
    show 0 + 2 < Grammar.maxDepth
    decide
  obtain ⟨item, t, hitem, ht, e, span, rfl, ⟨m, hm⟩, hsteps⟩ :=
    Grammar.moduleItem_of_new (Q := fun item => ∃ e span, item = .mk span (.expressionStatement e) ∧
      (∃ m, e.at? (List.replicate (k + 1) 0) = some m) ∧
        e.furtherSteps (List.replicate (k + 1) 0) = k + 1)
      hnews.kind_eq hroom hnew fun e span he => ⟨e, span, rfl, he⟩
  have hparse : Node.parse (newText k) = .ok (.mk ⟨0, (newText k).utf8ByteSize⟩
      (.program [.mk span (.expressionStatement e)])) := by
    refine Grammar.parse_eq_ok.2 ⟨_, t, rfl, ?_, ht⟩
    rw [hsize, ← hs]
    exact .cons hitem (.nil t)
  refine ⟨_, 0 :: 0 :: List.replicate (k + 1) 0, m, hparse, hm, ?_⟩
  unfold Node.furtherSteps at hsteps ⊢
  rw [Node.steps_cons rfl, Node.steps_cons rfl, hsteps]
  omega

namespace Grammar

/-- A phrase that is counted is refused where the limit is reached. -/
theorem nested_tooDeep {α : Type} {s : State} (p : Parser α) (hs : s.depth = maxDepth) :
    nested p s = .error (s.diagnostic .tooDeep) s := by
  unfold nested
  rw [if_neg (by omega)]
  rfl

/-- Of the phrases only a construction and a left-hand side are not counted. -/
theorem read_tooDeep {s : State} {phrase : Phrase} (n : Nat)
    (hphrase : phrase ∉ [Phrase.construction, .leftHandSide]) (hs : s.depth = maxDepth) :
    read (n + 1) phrase s = .error (s.diagnostic .tooDeep) s := by
  unfold read rule
  cases phrase with
  | construction => simp at hphrase
  | leftHandSide => simp at hphrase
  | assignment => exact nested_tooDeep _ hs
  | unary => exact nested_tooDeep _ hs
  | statement => exact nested_tooDeep _ hs
  | bindingTarget => exact nested_tooDeep _ hs
  | binary above =>
    -- the first operand is refused
    have hunary : unary (read n) s = .error (s.diagnostic .tooDeep) s := nested_tooDeep _ hs
    show binary (read n) above s = _
    unfold binary position
    rw [bind_look]
    show EStateM.bind _ _ s = _
    rw [EStateM.bind, hunary]

theorem State.diagnostic_message {s : State} (hs : s.token.kind ≠ .unknown) (fault : SyntaxFault) :
    s.diagnostic fault = ⟨fault, s.token.span⟩ := by
  unfold diagnostic
  split
  · contradiction
  · rfl

end Grammar

/-- Nesting in an accepted text is bounded by the limit, but for three parts that are read
without being counted. A phrase that is counted is refused where the limit is reached, and
through a part that is not counted other texts nest as often as one likes. -/
theorem nesting_bounded_but_unguarded {text : String} {tree : Node}
    (h : Node.parse text = .ok tree) :
    (∀ p, tree.furtherSteps p ≤ 12 * Grammar.maxDepth + 6 + tree.unguardedSteps p) ∧
    (∀ n phrase s, phrase ∉ [Grammar.Phrase.construction, .leftHandSide] →
      s.depth = Grammar.maxDepth → s.token.kind ≠ .unknown →
        ∃ d, Grammar.read (n + 1) phrase s = .error d s ∧ d.span = s.token.span ∧
          d.message = "Maximum nesting depth exceeded.") ∧
    ∀ b, ∃ text tree p m, Node.parse text = .ok tree ∧ tree.at? p = some m ∧
      b < tree.furtherSteps p := by
  refine ⟨bounded_parse h, ?_, fun b => ⟨_, parse_newText b⟩⟩
  intro n phrase s hphrase hdepth hkind
  refine ⟨_, Grammar.read_tooDeep n hphrase hdepth, ?_⟩
  rw [Grammar.State.diagnostic_message hkind]
  exact ⟨rfl, rfl⟩

/-- In this text the name is two steps further on, both of them to a callee. -/
theorem nesting_newNew : ∃ tree, Node.parse "new new x" = .ok tree ∧
    tree.furtherSteps [0, 0, 0, 0] = 2 ∧ tree.unguardedSteps [0, 0, 0, 0] = 2 ∧
      ∀ p, tree.furtherSteps p ≤ 12 * Grammar.maxDepth + 6 + tree.unguardedSteps p := by
  have hsteps : ∃ tree ∈ (Node.parse "new new x").toOption,
      tree.furtherSteps [0, 0, 0, 0] = 2 ∧ tree.unguardedSteps [0, 0, 0, 0] = 2 := by
    decide +kernel
  obtain ⟨tree, htree, hfurther, hunguarded⟩ := hsteps
  cases hparse : Node.parse "new new x" with
  | error d =>
    rw [hparse] at htree
    cases htree
  | ok parsed =>
    rw [hparse] at htree
    obtain rfl := Option.some.inj htree
    exact ⟨parsed, rfl, hfurther, hunguarded, (nesting_bounded_but_unguarded hparse).1⟩

end ModuleBundler
