import ModuleBundler.Module.Statement
import ModuleBundler.Proofs.Forward

/-!
# ModuleBundler — the ends of a node

The rules for statements and expressions note where the current token begins and
make their nodes from there, mostly up to the last token they take.

* `Makes`, `makes_statement` — statements reach from their first token to their
  last one, and are neither imports nor exports.
* `Starts`, `starts_assignment` — expressions begin at their first token.
-/

namespace ModuleBundler

/-- Whether a node links its module to others: import and export declarations do. -/
def Node.isLink (n : Node) : Bool := n.isImport || n.isExport

namespace Grammar

open Text (Cursor)

-- ---------------------------------------------------------------------------
-- Statements
-- ---------------------------------------------------------------------------

/-- A parser whose nodes reach from an offset to the last token taken, and are
neither imports nor exports. -/
def Makes (start : Nat) (p : Parser Node) : Prop :=
  ∀ ⦃s n t⦄, p s = .ok n t → n.span = ⟨start, t.lastStop⟩ ∧ n.isLink = false

/-- A parser whose nodes reach from the current token to the last one taken, and
are neither imports nor exports. -/
def MakesHere (p : Parser Node) : Prop :=
  ∀ ⦃s n t⦄, p s = .ok n t →
    n.span = ⟨s.token.start.offset, t.lastStop⟩ ∧ n.isLink = false

section Makes

variable {α : Type} {start : Nat} {g : Reading}

theorem Makes.nodeFrom {form : Form Node} (h : ∀ span, (Node.mk span form).isLink = false) :
    Makes start (Grammar.nodeFrom start form) := by
  intro s n t hn
  cases hn
  exact ⟨rfl, h _⟩

theorem Makes.fail (fault : SyntaxFault) : Makes start (Grammar.fail fault) := by
  intro s n t h
  cases h

theorem Makes.bind {p : Parser α} {f : α → Parser Node} (h : ∀ x, Makes start (f x)) :
    Makes start (p >>= f) := by
  intro s n u hn
  obtain ⟨x, t, -, hx⟩ := bind_ok hn
  exact h x hx

theorem Makes.ite {c : Prop} [Decidable c] {p q : Parser Node} (hp : Makes start p)
    (hq : Makes start q) : Makes start (if c then p else q) := by
  split
  · exact hp
  · exact hq

theorem MakesHere.position {f : Nat → Parser Node} (h : ∀ start, Makes start (f start)) :
    MakesHere (Grammar.position >>= f) := by
  intro s n u hn
  obtain ⟨start, t, hpos, hn⟩ := bind_ok hn
  cases hpos
  exact h _ hn

theorem MakesHere.ite {c : Prop} [Decidable c] {p q : Parser Node} (hp : MakesHere p)
    (hq : MakesHere q) : MakesHere (if c then p else q) := by
  split
  · exact hp
  · exact hq

theorem MakesHere.nested {p : Parser Node} (hp : MakesHere p) : MakesHere (Grammar.nested p) := by
  intro s n u h
  obtain ⟨t, ht, rfl⟩ := nested_ok h
  have hn := hp ht
  exact hn

theorem makes_word {form : Form Node} (h : ∀ span, (Node.mk span form).isLink = false) :
    MakesHere (word form) :=
  .position fun _ => .bind fun _ => .nodeFrom h

theorem makes_block : MakesHere (block g) :=
  .position fun _ => .bind fun _ => .nodeFrom fun _ => rfl

theorem makes_functionDeclaration (isAsync nameRequired : Bool) :
    Makes start (functionDeclaration g start isAsync nameRequired) :=
  .bind fun _ => .nodeFrom fun _ => rfl

theorem makes_classDeclaration (nameRequired : Bool) :
    MakesHere (classDeclaration g nameRequired) :=
  .position fun _ => .bind fun _ => .nodeFrom fun _ => rfl

theorem makes_variableDeclaration : MakesHere (variableDeclaration g) := by
  refine .position fun start => .bind fun k => ?_
  split
  · exact .fail _
  · exact .bind fun _ => .bind fun _ => .nodeFrom fun _ => rfl

/-- The statement begins where its declaration does. -/
theorem makes_variableStatement : MakesHere (variableStatement g) := by
  intro s n u h
  obtain ⟨declaration, t, hd, h⟩ := bind_ok h
  obtain ⟨v, hv, rfl⟩ := withIn_ok hd
  obtain ⟨hspan, hform⟩ := makes_variableDeclaration hv
  obtain ⟨_, w, -, h⟩ := bind_ok h
  cases h
  refine ⟨?_, hform⟩
  show Text.Span.mk declaration.span.start u.lastStop = _
  rw [hspan]

theorem makes_expressionStatement : MakesHere (expressionStatement g) :=
  .position fun _ => .bind fun _ => .bind fun _ => .nodeFrom fun _ => rfl

theorem makes_ifStatement : MakesHere (ifStatement g) :=
  .position fun _ => .bind fun _ => .bind fun _ => .bind fun _ => .bind fun _ =>
    .ite (.bind fun _ => .nodeFrom fun _ => rfl) (.bind fun _ => .nodeFrom fun _ => rfl)

theorem makes_whileStatement : MakesHere (whileStatement g) :=
  .position fun _ => .bind fun _ => .bind fun _ => .bind fun _ => .nodeFrom fun _ => rfl

theorem makes_doStatement : MakesHere (doStatement g) :=
  .position fun _ => .bind fun _ => .bind fun _ => .bind fun _ => .bind fun _ => .bind fun _ =>
    .nodeFrom fun _ => rfl

theorem makes_forStatement : MakesHere (forStatement g) := by
  refine .position fun start => .bind fun _ => .bind fun isAwait => .bind fun _ =>
    .bind fun first => .bind fun k => ?_
  split
  · exact .bind fun _ => .bind fun _ => .bind fun _ => .bind fun _ => .nodeFrom fun _ => rfl
  · exact .bind fun _ => .bind fun _ => .bind fun _ => .bind fun _ => .nodeFrom fun _ => rfl
  · exact .bind fun _ => .bind fun _ => .bind fun _ => .bind fun _ => .nodeFrom fun _ => rfl

theorem makes_returnStatement : MakesHere (returnStatement g) := by
  have hend : ∀ start argument, Makes start (do
      endOfStatement
      nodeFrom start (.returnStatement argument)) :=
    fun _ _ => .bind fun _ => .nodeFrom fun _ => rfl
  exact .position fun start => .bind fun _ => .bind fun _ =>
    .ite (.bind fun _ => hend start _) (.bind fun _ => hend start _)

theorem makes_jumpStatement {make : Option String → Form Node}
    (h : ∀ label span, (Node.mk span (make label)).isLink = false) :
    MakesHere (jumpStatement make) := by
  have hend : ∀ start label, Makes start (do
      endOfStatement
      nodeFrom start (make label)) :=
    fun _ label => .bind fun _ => .nodeFrom (h label)
  exact .position fun start => .bind fun _ => .bind fun _ =>
    .ite (.bind fun _ => hend start _) (.bind fun _ => hend start _)

theorem makes_throwStatement : MakesHere (throwStatement g) := by
  have hvalue : ∀ start, Makes start (do
      let argument ← allowIn (expression g)
      endOfStatement
      nodeFrom start (.throwStatement argument)) :=
    fun _ => .bind fun _ => .bind fun _ => .nodeFrom fun _ => rfl
  exact .position fun start => .bind fun _ => .bind fun _ =>
    .ite (.bind fun _ => hvalue start) (hvalue start)

theorem makes_tryStatement : MakesHere (tryStatement g) := by
  refine .position fun start => .bind fun _ => .bind fun body => .bind fun _ => ?_
  have hend : ∀ handler finalizer : Option Node, Makes start (do
      if handler.isNone && finalizer.isNone then Grammar.fail .handlerExpected
      nodeFrom start (.tryStatement body handler finalizer)) :=
    fun _ _ => .ite (.bind fun _ => .nodeFrom fun _ => rfl) (.nodeFrom fun _ => rfl)
  have hfinalizer : ∀ handler : Option Node, Makes start (do
      let finalizer ← if ← accept (.word .finallyKw) then some <$> block g else pure none
      if handler.isNone && finalizer.isNone then Grammar.fail .handlerExpected
      nodeFrom start (.tryStatement body handler finalizer)) :=
    fun _ => .bind fun _ => .ite (.bind fun _ => hend _ _) (.bind fun _ => hend _ _)
  exact .ite (.bind fun _ => hfinalizer _) (.bind fun _ => hfinalizer _)

theorem makes_switchStatement : MakesHere (switchStatement g) :=
  .position fun _ => .bind fun _ => .bind fun _ => .bind fun _ => .bind fun _ => .bind fun _ =>
    .nodeFrom fun _ => rfl

theorem makes_withStatement : MakesHere (withStatement g) :=
  .position fun _ => .bind fun _ => .bind fun _ => .bind fun _ => .nodeFrom fun _ => rfl

theorem makes_labeledStatement : MakesHere (labeledStatement g) :=
  .position fun _ => .bind fun _ => .bind fun _ => .bind fun _ => .nodeFrom fun _ => rfl

theorem makes_debuggerStatement : MakesHere debuggerStatement :=
  .position fun _ => .bind fun _ => .bind fun _ => .nodeFrom fun _ => rfl

theorem makes_otherStatement (t : Token) : MakesHere (otherStatement g t) :=
  .ite makes_labeledStatement makes_expressionStatement

/-- A statement reaches from its first token to its last one. -/
theorem makes_statement : MakesHere (statement g) := by
  refine .nested ?_
  intro s n t h
  obtain ⟨token, _, hcur, h⟩ := bind_ok h
  cases hcur
  have hother := @makes_otherStatement g s.token
  have hfunction := @makes_functionDeclaration s.token.start.offset g
  generalize s.token.kind = k at h
  split at h
  · exact makes_block h
  · exact makes_word (fun _ => rfl) h
  · exact makes_variableStatement h
  · exact makes_variableStatement h
  · exact MakesHere.ite makes_variableStatement hother h
  · exact hfunction _ _ h
  · split at h
    · exact Makes.bind (fun _ => hfunction _ _) h
    · exact hother h
  · exact makes_classDeclaration _ h
  · exact makes_ifStatement h
  · exact makes_forStatement h
  · exact makes_whileStatement h
  · exact makes_doStatement h
  · exact makes_returnStatement h
  · exact makes_jumpStatement (fun _ _ => rfl) h
  · exact makes_jumpStatement (fun _ _ => rfl) h
  · exact makes_throwStatement h
  · exact makes_tryStatement h
  · exact makes_switchStatement h
  · exact makes_withStatement h
  · exact makes_debuggerStatement h
  · split at h
    · exact hother h
    · cases h
  · cases h
  · exact hother h

end Makes

-- ---------------------------------------------------------------------------
-- Expressions
-- ---------------------------------------------------------------------------

/-- A parser whose nodes begin at an offset. -/
def Starts (start : Nat) (p : Parser Node) : Prop :=
  ∀ ⦃s n t⦄, p s = .ok n t → n.span.start = start

/-- A parser whose nodes begin at the current token. -/
def StartsHere (p : Parser Node) : Prop :=
  ∀ ⦃s n t⦄, p s = .ok n t → n.span.start = s.token.start.offset

section Starts

variable {α : Type} {start : Nat} {g : Reading}

theorem Starts.nodeFrom (form : Form Node) : Starts start (Grammar.nodeFrom start form) := by
  intro s n t hn
  cases hn
  rfl

theorem Starts.pure {e : Node} (he : e.span.start = start) : Starts start (pure e) := by
  intro s n t hn
  cases hn
  exact he

theorem Starts.exhausted : Starts start (Grammar.exhausted : Parser Node) := by
  intro s n t h
  cases h

theorem Starts.fail (fault : SyntaxFault) : Starts start (Grammar.fail fault) := by
  intro s n t h
  cases h

theorem Starts.bind {p : Parser α} {f : α → Parser Node} (h : ∀ x, Starts start (f x)) :
    Starts start (p >>= f) := by
  intro s n u hn
  obtain ⟨x, t, -, hx⟩ := bind_ok hn
  exact h x hx

theorem Starts.ite {c : Prop} [Decidable c] {p q : Parser Node} (hp : Starts start p)
    (hq : Starts start q) : Starts start (if c then p else q) := by
  split
  · exact hp
  · exact hq

namespace StartsHere

theorem position {f : Nat → Parser Node} (h : ∀ start, Starts start (f start)) :
    StartsHere (Grammar.position >>= f) := by
  intro s n u hn
  obtain ⟨start, t, hpos, hn⟩ := bind_ok hn
  cases hpos
  exact h _ hn

/-- Looking at the state changes nothing. -/
theorem look {h : State → α} {f : α → Parser Node} (hf : ∀ x, StartsHere (f x)) :
    StartsHere ((fun s => .ok (h s) s) >>= f) := by
  intro s n u hn
  obtain ⟨x, t, hlook, hn⟩ := bind_ok hn
  cases hlook
  exact hf _ hn

/-- The node begins with its first part. -/
theorem part {p : Parser Node} {f : Nat → Node → Parser Node} (hp : StartsHere p)
    (hf : ∀ start e, e.span.start = start → Starts start (f start e)) :
    StartsHere (do
      let start ← Grammar.position
      let e ← p
      f start e) := by
  intro s n u hn
  obtain ⟨start, t, hpos, hn⟩ := bind_ok hn
  cases hpos
  obtain ⟨e, t, he, hn⟩ := bind_ok hn
  exact hf _ e (hp he) hn

theorem ite {c : Prop} [Decidable c] {p q : Parser Node} (hp : StartsHere p)
    (hq : StartsHere q) : StartsHere (if c then p else q) := by
  split
  · exact hp
  · exact hq

theorem fail (fault : SyntaxFault) : StartsHere (Grammar.fail fault) := by
  intro s n t h
  cases h

theorem nested {p : Parser Node} (hp : StartsHere p) : StartsHere (Grammar.nested p) := by
  intro s n u h
  obtain ⟨t, ht, rfl⟩ := nested_ok h
  have hn := hp ht
  exact hn

end StartsHere

theorem starts_word (form : Form Node) : StartsHere (word form) :=
  .position fun _ => .bind fun _ => .nodeFrom _

theorem starts_literal (make : String → Literal) : StartsHere (literal make) :=
  .position fun _ => .bind fun _ => .nodeFrom _

theorem starts_identifier : StartsHere identifier :=
  .position fun _ => .bind fun _ => .nodeFrom _

/-- A slash that is read anew begins where it did. -/
theorem starts_regex : StartsHere regex := by
  intro s n t h
  obtain ⟨_, _, hread, h⟩ := bind_ok h
  cases hread
  obtain ⟨isRegex, _, hat, h⟩ := bind_ok h
  cases hat
  split at h
  · exact (starts_literal _ h).trans (congrArg Cursor.offset s.token.asRegex_start)
  · cases h

theorem starts_templateLiteral : StartsHere (templateLiteral g) := by
  refine .position fun start => .bind fun first => ?_
  have hend : ∀ parts : List String × List Node, Starts start (do
      advance
      nodeFrom start (.templateLiteral parts.1 parts.2)) :=
    fun _ => .bind fun _ => .nodeFrom _
  exact .ite (.bind fun _ => .bind fun parts => hend parts) (.bind fun parts => hend parts)

theorem starts_functionExpression (isAsync : Bool) :
    Starts start (functionExpression g start isAsync) :=
  .bind fun _ => .nodeFrom _

theorem starts_primary : StartsHere (primary g) := by
  refine .look fun t => ?_
  intro s n u h
  obtain ⟨start, _, hpos, h⟩ := bind_ok h
  cases hpos
  have hfunction := @starts_functionExpression s.token.start.offset g
  generalize t.kind = k at h
  split at h
  · exact starts_word _ h
  · exact starts_word _ h
  · exact starts_word _ h
  · exact starts_word _ h
  · exact starts_literal _ h
  · exact starts_literal _ h
  · exact starts_literal _ h
  · exact starts_word _ h
  · exact starts_regex h
  · exact starts_regex h
  · exact starts_templateLiteral h
  · exact starts_templateLiteral h
  · exact StartsHere.position (fun _ => .bind fun _ => .nodeFrom _) h
  · exact StartsHere.position (fun _ => .bind fun _ => .bind fun _ => .bind fun _ => .nodeFrom _) h
  · exact StartsHere.position (fun _ => .bind fun _ => .bind fun _ => .bind fun _ => .nodeFrom _) h
  · exact hfunction _ h
  · exact StartsHere.position (fun _ => .bind fun _ => .nodeFrom _) h
  · split at h
    · exact Starts.bind (fun _ => hfunction _) h
    · exact starts_identifier h
  · exact StartsHere.ite starts_identifier (.fail _) h

theorem starts_optionalAccess (e : Node) : Starts start (optionalAccess g start e) := by
  refine .bind fun k => ?_
  split
  · exact .bind fun _ => .nodeFrom _
  · exact .bind fun _ => .nodeFrom _
  · exact .bind fun _ => .nodeFrom _

theorem starts_accesses (calls : Bool) (n : Nat) (isOptional : Bool) {e : Node}
    (he : e.span.start = start) : Starts start (accesses g start calls n isOptional e) := by
  induction n generalizing isOptional e with
  | zero => exact .exhausted
  | succ n ih =>
    have hnext : ∀ isOptional form, Starts start (do
        accesses g start calls n isOptional (← nodeFrom start form)) := by
      intro isOptional form s u t h
      obtain ⟨e, _, hnode, h⟩ := bind_ok h
      cases hnode
      exact ih _ rfl h
    refine .bind fun k => ?_
    split
    · exact .bind fun _ => .bind fun _ => hnext _ _
    · refine .ite (.bind fun _ => ?_) (.pure he)
      intro s u t h
      obtain ⟨access, _, haccess, h⟩ := bind_ok h
      exact ih _ (starts_optionalAccess e haccess) h
    · exact .bind fun _ => hnext _ _
    · exact .ite (.fail _) (.bind fun _ => hnext _ _)
    · exact .ite (.fail _) (.bind fun _ => hnext _ _)
    · exact .ite (.bind fun _ => hnext _ _) (.pure he)
    · exact .pure he

theorem starts_metaProperty (object property : String) :
    Starts start (metaProperty start object property) :=
  .bind fun _ => .ite (.nodeFrom _) (.fail _)

theorem starts_construction : StartsHere (construction g) := by
  refine .position fun start => .bind fun _ => .bind fun _ => .ite (starts_metaProperty _ _) ?_
  refine .bind fun calleeStart => .bind fun k => ?_
  have hrest : ∀ callee : Node, Starts start (do
      let callee ← accesses g calleeStart false (← rounds) false callee
      let values ← if ← isAt (.punct .openParen) then arguments g else pure []
      nodeFrom start (.newExpression callee values)) :=
    fun _ => .bind fun _ => .bind fun _ => .bind fun _ =>
      .ite (.bind fun _ => .nodeFrom _) (.bind fun _ => .nodeFrom _)
  split
  · exact .bind hrest
  · exact .bind hrest
  · exact .bind hrest

theorem starts_importExpression : StartsHere (importExpression g) := by
  refine .position fun start => .bind fun _ => .bind fun _ => .ite (starts_metaProperty _ _) ?_
  refine .bind fun _ => .bind fun source => ?_
  have hend : Starts start (do
      expect (.punct .closeParen)
      nodeFrom start (.importExpression source)) :=
    .bind fun _ => .nodeFrom _
  exact .bind fun _ => .ite (.bind fun _ => .ite (.bind fun _ => .bind fun _ => hend) hend) hend

theorem starts_leftHandSide : StartsHere (leftHandSide g) := by
  intro s n u h
  obtain ⟨start, _, hpos, h⟩ := bind_ok h
  cases hpos
  obtain ⟨k, _, hkind, h⟩ := bind_ok h
  cases hkind
  have hrest : ∀ {e t}, e.span.start = s.token.start.offset →
      (do accesses g s.token.start.offset true (← rounds) false e : Parser Node) t = .ok n u →
      n.span.start = s.token.start.offset :=
    fun he h => Starts.bind (fun _ => starts_accesses _ _ _ he) h
  generalize s.token.kind = k at h
  split at h
  · obtain ⟨e, t, he, h⟩ := bind_ok h
    exact hrest (starts_construction he) h
  · obtain ⟨e, t, he, h⟩ := bind_ok h
    exact hrest (starts_word _ he) h
  · obtain ⟨e, t, he, h⟩ := bind_ok h
    exact hrest (starts_importExpression he) h
  · obtain ⟨e, t, he, h⟩ := bind_ok h
    exact hrest (starts_primary he) h

theorem starts_updated : StartsHere (updated g) :=
  .part starts_leftHandSide fun _ _ he =>
    .bind fun _ => .ite (.bind fun _ => .nodeFrom _) (.pure he)

theorem starts_unary : StartsHere (unary g) := by
  refine .nested ?_
  intro s n u h
  obtain ⟨start, _, hpos, h⟩ := bind_ok h
  cases hpos
  obtain ⟨op, _, hkind, h⟩ := bind_ok h
  cases hkind
  have hoperand : ∀ form : Node → Form Node, Starts s.token.start.offset (do
      advance
      nodeFrom s.token.start.offset (form (← g .unary))) :=
    fun _ => .bind fun _ => .bind fun _ => .nodeFrom _
  split at h
  · exact hoperand _ h
  split at h
  · exact hoperand _ h
  split at h
  · exact hoperand _ h
  · exact starts_updated h

theorem starts_operations (above n : Nat) {left : Node} (hleft : left.span.start = start) :
    Starts start (operations g start above n left) := by
  induction n generalizing left with
  | zero => exact .exhausted
  | succ n ih =>
    refine .bind fun op => .bind fun _ => .ite (.bind fun _ => .bind fun right => ?_) (.pure hleft)
    intro s u t h
    obtain ⟨e, _, hnode, h⟩ := bind_ok h
    cases hnode
    exact ih rfl h

theorem starts_binary (above : Nat) : StartsHere (binary g above) :=
  .part starts_unary fun _ _ he => .bind fun _ => starts_operations _ _ he

theorem starts_conditional : StartsHere (conditional g) :=
  .part (starts_binary 0) fun _ _ he =>
    .bind fun _ => .ite (.bind fun _ => .bind fun _ => .bind fun _ => .nodeFrom _) (.pure he)

theorem starts_yieldExpression : StartsHere (yieldExpression g) := by
  refine .position fun start => .bind fun _ => .bind fun _ => .ite (.nodeFrom _) ?_
  have hvalue : ∀ delegates, Starts start (do
      nodeFrom start (.yieldExpression (some (← g .assignment)) delegates)) :=
    fun _ => .bind fun _ => .nodeFrom _
  exact .bind fun _ => .ite (hvalue _) (.bind fun _ => .ite (hvalue _) (.nodeFrom _))

theorem starts_arrowEnd (start : Nat) (isAsync : Bool) (params : List Node) :
    Starts start (arrowEnd g start isAsync params) := by
  have hbody : Starts start (do
      expect (.punct .arrow)
      let body ← arrowBody g
      nodeFrom start (.arrowFunction params body isAsync)) :=
    .bind fun _ => .bind fun _ => .nodeFrom _
  exact .bind fun _ => .ite (.bind fun _ => hbody) hbody

theorem starts_arrowParts (start : Nat) (isAsync : Bool) :
    Starts start (arrowParts g start isAsync) :=
  .bind fun _ => .ite (.bind fun _ => starts_arrowEnd _ _ _) (.bind fun _ => starts_arrowEnd _ _ _)

theorem starts_arrowFunction : StartsHere (arrowFunction g) :=
  .position fun _ => .bind fun _ =>
    .ite (.bind fun _ => starts_arrowParts _ _) (starts_arrowParts _ _)

theorem starts_assignment : StartsHere (assignment g) :=
  .nested <| .look fun _ => .ite starts_yieldExpression <| .look fun _ =>
    .ite starts_arrowFunction <| .part starts_conditional fun _ _ he =>
      .bind fun _ => .ite (.bind fun _ => .bind fun _ => .nodeFrom _) (.pure he)

end Starts

end Grammar

end ModuleBundler
