import ModuleBundler.Proofs.Forward
import ModuleBundler.Proofs.Loops

/-!
# ModuleBundler — the number of rounds

The rules read the phrases inside them in a round less than they are given themselves. The number
of rounds decides only whether a phrase is read to its end: what is read in some rounds is read in
more rounds too, and is the same.

* `Rises` — a parser that does at least what another one does. Instances pass it on, from the
  steps to the rules of the grammar.
* `read_mono`, `read_unique` — the phrases of the grammar, in some rounds and in more.
-/

namespace ModuleBundler.Grammar

/-- What one parser reads another one reads as well. -/
class Rises {α : Type} (p p' : Parser α) : Prop where
  ok : ∀ ⦃s x t⦄, p s = .ok x t → p' s = .ok x t

namespace Rises

-- ---------------------------------------------------------------------------
-- Steps
-- ---------------------------------------------------------------------------

section Steps

variable {α β σ : Type} {p p' q q' : Parser α} {f f' : α → Parser β}

@[instance]
theorem refl (p : Parser α) : Rises p p := ⟨fun _ _ _ h => h⟩

@[instance]
theorem exhausted (p : Parser α) : Rises Grammar.exhausted p := ⟨fun _ _ _ h => nomatch h⟩

@[instance]
theorem bind [hp : Rises p p'] [hf : ∀ x, Rises (f x) (f' x)] : Rises (p >>= f) (p' >>= f') where
  ok s y u h := by
    obtain ⟨x, t, hx, h⟩ := bind_ok h
    show EStateM.bind p' f' s = .ok y u
    rw [EStateM.bind, hp.ok hx]
    exact (hf x).ok h

theorem andThen [Rises p p'] (h : ∀ x, Rises (f x) (f' x)) : Rises (p >>= f) (p' >>= f') := .bind

theorem either {c : Prop} [Decidable c] (hp : Rises p p') (hq : Rises q q') :
    Rises (if c then p else q) (if c then p' else q') := by
  split <;> assumption

@[instance]
theorem ite (c : Prop) [Decidable c] [Rises p p'] [Rises q q'] :
    Rises (if c then p else q) (if c then p' else q') :=
  .either inferInstance inferInstance

@[instance]
theorem map (k : α → β) [Rises p p'] : Rises (k <$> p) (k <$> p') := by
  rw [map_eq_pure_bind, map_eq_pure_bind]
  infer_instance

@[instance]
theorem nested [hp : Rises p p'] : Rises (Grammar.nested p) (Grammar.nested p') where
  ok s x t h := by
    unfold Grammar.nested at h ⊢
    split at h
    · rename_i hroom
      rw [if_pos hroom]
      split at h
      · rename_i hok
        rw [hp.ok hok]
        exact h
      · cases h
    · cases h

@[instance]
theorem withIn (noIn : Bool) [hp : Rises p p'] :
    Rises (Grammar.withIn noIn p) (Grammar.withIn noIn p') where
  ok s x t h := by
    unfold Grammar.withIn at h ⊢
    split at h
    · rename_i hok
      rw [hp.ok hok]
      exact h
    · cases h

@[instance]
theorem allowIn [Rises p p'] : Rises (Grammar.allowIn p) (Grammar.allowIn p') :=
  .withIn false

/-- A loop, which may be given more rounds. -/
theorem loop {round round' : σ → Parser (σ ⊕ β)} (h : ∀ x, Rises (round x) (round' x)) (n : Nat)
    (x : σ) : Rises (Grammar.loop round n x) (Grammar.loop round' n x) := by
  induction n generalizing x with
  | zero => exact .exhausted _
  | succ n ih =>
    have := h x
    refine .andThen fun r => ?_
    cases r with
    | inl y => exact ih y
    | inr b => exact .refl _

@[instance]
theorem many (ends : TokenKind → Bool) [Rises p p'] :
    Rises (Grammar.many ends p) (Grammar.many ends p') := by
  refine .andThen fun n => ?_
  rw [many_go_eq, many_go_eq]
  refine loop (fun acc => ?_) n []
  unfold manyRound
  infer_instance

@[instance]
theorem separated [Rises p p'] : Rises (Grammar.separated p) (Grammar.separated p') := by
  refine .andThen fun n => .andThen fun first => ?_
  rw [separated_go_eq, separated_go_eq]
  refine loop (fun acc => ?_) n [first]
  unfold separatedRound
  infer_instance

@[instance]
theorem listUntil (closing : Punctuator) {e e' : Parser (Entry α)} [Rises e e'] :
    Rises (Grammar.listUntil closing e) (Grammar.listUntil closing e') := by
  refine .andThen fun n => ?_
  rw [listUntil_go_eq, listUntil_go_eq]
  refine loop (fun acc => ?_) n []
  unfold listRound
  infer_instance

end Steps

section Rules

variable {g g' : Reading} [hg : ∀ phrase, Rises (g phrase) (g' phrase)]

-- ---------------------------------------------------------------------------
-- Keys, patterns and parameters
-- ---------------------------------------------------------------------------

@[instance]
theorem sequence {p p' : Parser Node} [Rises p p'] :
    Rises (Grammar.sequence p) (Grammar.sequence p') := by
  unfold Grammar.sequence
  infer_instance

@[instance]
theorem expression : Rises (Grammar.expression g) (Grammar.expression g') := by
  unfold Grammar.expression
  infer_instance

@[instance]
theorem propertyKey : Rises (Grammar.propertyKey g) (Grammar.propertyKey g') := by
  refine .andThen fun k => ?_
  split <;> infer_instance

@[instance]
theorem withDefault (start : Nat) (target : Node) {p p' : Parser Node} [Rises p p'] :
    Rises (Grammar.withDefault start target p) (Grammar.withDefault start target p') := by
  unfold Grammar.withDefault
  infer_instance

@[instance]
theorem bindingElement : Rises (Grammar.bindingElement g) (Grammar.bindingElement g') := by
  unfold Grammar.bindingElement
  infer_instance

@[instance]
theorem restElement : Rises (Grammar.restElement g) (Grammar.restElement g') := by
  unfold Grammar.restElement
  infer_instance

@[instance]
theorem patternProperty : Rises (Grammar.patternProperty g) (Grammar.patternProperty g') := by
  unfold Grammar.patternProperty
  infer_instance

@[instance]
theorem objectPattern : Rises (Grammar.objectPattern g) (Grammar.objectPattern g') := by
  unfold Grammar.objectPattern
  infer_instance

@[instance]
theorem elementEntry : Rises (Grammar.elementEntry g) (Grammar.elementEntry g') := by
  unfold Grammar.elementEntry
  infer_instance

@[instance]
theorem arrayPattern : Rises (Grammar.arrayPattern g) (Grammar.arrayPattern g') := by
  refine .andThen fun start => .andThen fun _ => ?_
  infer_instance

@[instance]
theorem bindingTarget : Rises (Grammar.bindingTarget g) (Grammar.bindingTarget g') := by
  refine @nested _ _ _ (.andThen fun k => ?_)
  split <;> infer_instance

@[instance]
theorem parameters : Rises (Grammar.parameters g) (Grammar.parameters g') := by
  unfold Grammar.parameters
  infer_instance

-- ---------------------------------------------------------------------------
-- Functions and classes
-- ---------------------------------------------------------------------------

@[instance]
theorem bracedStatements : Rises (Grammar.bracedStatements g) (Grammar.bracedStatements g') := by
  unfold Grammar.bracedStatements
  infer_instance

@[instance]
theorem block : Rises (Grammar.block g) (Grammar.block g') := by
  unfold Grammar.block
  infer_instance

@[instance]
theorem functionBody : Rises (Grammar.functionBody g) (Grammar.functionBody g') := by
  unfold Grammar.functionBody
  infer_instance

@[instance]
theorem functionParts (isAsync nameRequired : Bool) :
    Rises (Grammar.functionParts g isAsync nameRequired)
      (Grammar.functionParts g' isAsync nameRequired) := by
  unfold Grammar.functionParts
  infer_instance

@[instance]
theorem functionDeclaration (start : Nat) (isAsync nameRequired : Bool) :
    Rises (Grammar.functionDeclaration g start isAsync nameRequired)
      (Grammar.functionDeclaration g' start isAsync nameRequired) := by
  unfold Grammar.functionDeclaration
  infer_instance

@[instance]
theorem functionExpression (start : Nat) (isAsync : Bool) :
    Rises (Grammar.functionExpression g start isAsync)
      (Grammar.functionExpression g' start isAsync) := by
  unfold Grammar.functionExpression
  infer_instance

@[instance]
theorem methodFunction (isAsync isGenerator : Bool) :
    Rises (Grammar.methodFunction g isAsync isGenerator)
      (Grammar.methodFunction g' isAsync isGenerator) := by
  unfold Grammar.methodFunction
  infer_instance

@[instance]
theorem methodOrField (start : Nat) (isStatic : Bool) :
    Rises (Grammar.methodOrField g start isStatic) (Grammar.methodOrField g' start isStatic) := by
  refine .andThen fun _ => .andThen fun _ => ?_
  dsimp only
  infer_instance

@[instance]
theorem classMember : Rises (Grammar.classMember g) (Grammar.classMember g') := by
  unfold Grammar.classMember
  infer_instance

@[instance]
theorem classBody : Rises (Grammar.classBody g) (Grammar.classBody g') := by
  unfold Grammar.classBody
  infer_instance

@[instance]
theorem classParts (nameRequired : Bool) :
    Rises (Grammar.classParts g nameRequired) (Grammar.classParts g' nameRequired) := by
  unfold Grammar.classParts
  dsimp only
  infer_instance

@[instance]
theorem classDeclaration (nameRequired : Bool) :
    Rises (Grammar.classDeclaration g nameRequired) (Grammar.classDeclaration g' nameRequired) := by
  unfold Grammar.classDeclaration
  infer_instance

@[instance]
theorem classExpression : Rises (Grammar.classExpression g) (Grammar.classExpression g') := by
  unfold Grammar.classExpression
  infer_instance

-- ---------------------------------------------------------------------------
-- Primary expressions
-- ---------------------------------------------------------------------------

@[instance]
theorem substitutions (n : Nat) (quasis : List String) (es : List Node) :
    Rises (Grammar.substitutions g n quasis es) (Grammar.substitutions g' n quasis es) := by
  rw [substitutions_eq, substitutions_eq]
  refine loop (fun x => ?_) n (quasis, es)
  unfold substitutionRound substituted
  infer_instance

@[instance]
theorem templateLiteral : Rises (Grammar.templateLiteral g) (Grammar.templateLiteral g') := by
  unfold Grammar.templateLiteral
  dsimp only
  infer_instance

@[instance]
theorem inParentheses : Rises (Grammar.inParentheses g) (Grammar.inParentheses g') := by
  unfold Grammar.inParentheses
  infer_instance

@[instance]
theorem parenthesized : Rises (Grammar.parenthesized g) (Grammar.parenthesized g') := by
  unfold Grammar.parenthesized
  infer_instance

@[instance]
theorem spreadable : Rises (Grammar.spreadable g) (Grammar.spreadable g') := by
  unfold Grammar.spreadable
  infer_instance

@[instance]
theorem arrayLiteral : Rises (Grammar.arrayLiteral g) (Grammar.arrayLiteral g') := by
  unfold Grammar.arrayLiteral
  infer_instance

@[instance]
theorem arguments : Rises (Grammar.arguments g) (Grammar.arguments g') := by
  unfold Grammar.arguments
  infer_instance

@[instance]
theorem propertyAfter (start : Nat) (head : MemberHead) :
    Rises (Grammar.propertyAfter g start head) (Grammar.propertyAfter g' start head) := by
  refine .andThen fun _ => .andThen fun _ => .andThen fun _ => ?_
  dsimp only
  infer_instance

@[instance]
theorem objectProperty : Rises (Grammar.objectProperty g) (Grammar.objectProperty g') := by
  unfold Grammar.objectProperty
  infer_instance

@[instance]
theorem objectLiteral : Rises (Grammar.objectLiteral g) (Grammar.objectLiteral g') := by
  unfold Grammar.objectLiteral
  infer_instance

@[instance]
theorem primary : Rises (Grammar.primary g) (Grammar.primary g') := by
  refine .andThen fun t => .andThen fun start => ?_
  split <;> infer_instance

-- ---------------------------------------------------------------------------
-- Accesses, operators and assignments
-- ---------------------------------------------------------------------------

@[instance]
theorem computedMember : Rises (Grammar.computedMember g) (Grammar.computedMember g') := by
  unfold Grammar.computedMember
  infer_instance

@[instance]
theorem optionalAccess (start : Nat) (e : Node) :
    Rises (Grammar.optionalAccess g start e) (Grammar.optionalAccess g' start e) := by
  refine .andThen fun k => ?_
  split <;> infer_instance

@[instance]
theorem accesses (start : Nat) (calls : Bool) (n : Nat) (isOptional : Bool) (e : Node) :
    Rises (Grammar.accesses g start calls n isOptional e)
      (Grammar.accesses g' start calls n isOptional e) := by
  rw [accesses_eq, accesses_eq]
  refine loop (fun x => .andThen fun k => ?_) n (isOptional, e)
  split <;> infer_instance

@[instance]
theorem construction : Rises (Grammar.construction g) (Grammar.construction g') := by
  refine .andThen fun start => .andThen fun _ => .andThen fun isMeta => .either inferInstance ?_
  refine .andThen fun calleeStart => .andThen fun k => ?_
  split <;> infer_instance

@[instance]
theorem importExpression : Rises (Grammar.importExpression g) (Grammar.importExpression g') := by
  refine .andThen fun start => .andThen fun _ => .andThen fun isMeta => .either inferInstance ?_
  refine .andThen fun _ => .andThen fun source => .andThen fun hasMore => .either ?_ inferInstance
  infer_instance

@[instance]
theorem leftHandSide : Rises (Grammar.leftHandSide g) (Grammar.leftHandSide g') := by
  refine .andThen fun start => .andThen fun k => ?_
  split <;> infer_instance

@[instance]
theorem updated : Rises (Grammar.updated g) (Grammar.updated g') := by
  unfold Grammar.updated
  infer_instance

@[instance]
theorem unary : Rises (Grammar.unary g) (Grammar.unary g') := by
  unfold Grammar.unary
  infer_instance

@[instance]
theorem operations (start above n : Nat) (left : Node) :
    Rises (Grammar.operations g start above n left) (Grammar.operations g' start above n left) := by
  rw [operations_eq, operations_eq]
  refine loop (fun x => ?_) n left
  unfold operationRound
  infer_instance

@[instance]
theorem binary (above : Nat) : Rises (Grammar.binary g above) (Grammar.binary g' above) := by
  unfold Grammar.binary
  infer_instance

@[instance]
theorem conditional : Rises (Grammar.conditional g) (Grammar.conditional g') := by
  unfold Grammar.conditional
  infer_instance

@[instance]
theorem yieldExpression : Rises (Grammar.yieldExpression g) (Grammar.yieldExpression g') := by
  refine .andThen fun start => .andThen fun _ => ?_
  infer_instance

@[instance]
theorem arrowBody : Rises (Grammar.arrowBody g) (Grammar.arrowBody g') := by
  unfold Grammar.arrowBody
  infer_instance

@[instance]
theorem arrowEnd (start : Nat) (isAsync : Bool) (params : List Node) :
    Rises (Grammar.arrowEnd g start isAsync params) (Grammar.arrowEnd g' start isAsync params) := by
  unfold Grammar.arrowEnd
  infer_instance

@[instance]
theorem arrowParts (start : Nat) (isAsync : Bool) :
    Rises (Grammar.arrowParts g start isAsync) (Grammar.arrowParts g' start isAsync) := by
  unfold Grammar.arrowParts
  infer_instance

@[instance]
theorem arrowFunction : Rises (Grammar.arrowFunction g) (Grammar.arrowFunction g') := by
  rw [Grammar.arrowFunction_eq, Grammar.arrowFunction_eq]
  infer_instance

@[instance]
theorem assignment : Rises (Grammar.assignment g) (Grammar.assignment g') := by
  unfold Grammar.assignment
  infer_instance

-- ---------------------------------------------------------------------------
-- Statements
-- ---------------------------------------------------------------------------

@[instance]
theorem declarator : Rises (Grammar.declarator g) (Grammar.declarator g') := by
  unfold Grammar.declarator
  dsimp only
  infer_instance

@[instance]
theorem variableDeclaration :
    Rises (Grammar.variableDeclaration g) (Grammar.variableDeclaration g') := by
  refine .andThen fun start => .andThen fun k => ?_
  split <;> infer_instance

@[instance]
theorem variableStatement :
    Rises (Grammar.variableStatement g) (Grammar.variableStatement g') := by
  unfold Grammar.variableStatement
  infer_instance

@[instance]
theorem expressionStatement :
    Rises (Grammar.expressionStatement g) (Grammar.expressionStatement g') := by
  unfold Grammar.expressionStatement
  infer_instance

@[instance]
theorem ifStatement : Rises (Grammar.ifStatement g) (Grammar.ifStatement g') := by
  unfold Grammar.ifStatement
  dsimp only
  infer_instance

@[instance]
theorem whileStatement : Rises (Grammar.whileStatement g) (Grammar.whileStatement g') := by
  unfold Grammar.whileStatement
  infer_instance

@[instance]
theorem doStatement : Rises (Grammar.doStatement g) (Grammar.doStatement g') := by
  unfold Grammar.doStatement
  infer_instance

@[instance]
theorem forFirst : Rises (Grammar.forFirst g) (Grammar.forFirst g') := by
  refine .andThen fun t => ?_
  split <;> infer_instance

@[instance]
theorem clauseBefore (ending : Punctuator) :
    Rises (Grammar.clauseBefore g ending) (Grammar.clauseBefore g' ending) := by
  unfold Grammar.clauseBefore
  infer_instance

@[instance]
theorem forClauses (start : Nat) (first : Option Node) :
    Rises (Grammar.forClauses g start first) (Grammar.forClauses g' start first) := by
  unfold Grammar.forClauses
  infer_instance

@[instance]
theorem forOf (start : Nat) (isAwait : Bool) (left : Node) :
    Rises (Grammar.forOf g start isAwait left) (Grammar.forOf g' start isAwait left) := by
  unfold Grammar.forOf
  infer_instance

@[instance]
theorem forIn (start : Nat) (left : Node) :
    Rises (Grammar.forIn g start left) (Grammar.forIn g' start left) := by
  unfold Grammar.forIn
  infer_instance

@[instance]
theorem forStatement : Rises (Grammar.forStatement g) (Grammar.forStatement g') := by
  refine .andThen fun start => .andThen fun _ => .andThen fun isAwait => .andThen fun _ => ?_
  refine .andThen fun first => .andThen fun k => ?_
  split <;> infer_instance

@[instance]
theorem returnStatement : Rises (Grammar.returnStatement g) (Grammar.returnStatement g') := by
  unfold Grammar.returnStatement
  dsimp only
  infer_instance

@[instance]
theorem throwStatement : Rises (Grammar.throwStatement g) (Grammar.throwStatement g') := by
  refine .andThen fun _ => .andThen fun _ => .andThen fun _ => ?_
  dsimp only
  infer_instance

@[instance]
theorem catchClause : Rises (Grammar.catchClause g) (Grammar.catchClause g') := by
  refine .andThen fun _ => .andThen fun _ => ?_
  dsimp only
  infer_instance

@[instance]
theorem tryStatement : Rises (Grammar.tryStatement g) (Grammar.tryStatement g') := by
  refine .andThen fun start => .andThen fun _ => .andThen fun body => ?_
  have hfinalizer : ∀ handler : Option Node, Rises (do
      let finalizer ← if ← accept (.word .finallyKw) then some <$> Grammar.block g else pure none
      if handler.isNone && finalizer.isNone then Grammar.fail .handlerExpected
      nodeFrom start (.tryStatement body handler finalizer)) (do
      let finalizer ← if ← accept (.word .finallyKw) then some <$> Grammar.block g' else pure none
      if handler.isNone && finalizer.isNone then Grammar.fail .handlerExpected
      nodeFrom start (.tryStatement body handler finalizer)) :=
    fun _ => .andThen fun _ => .either inferInstance (.refl _)
  exact .andThen fun _ => .either (.andThen hfinalizer) (.andThen hfinalizer)

@[instance]
theorem caseTest : Rises (Grammar.caseTest g) (Grammar.caseTest g') := by
  refine .andThen fun k => ?_
  split <;> infer_instance

@[instance]
theorem switchCase : Rises (Grammar.switchCase g) (Grammar.switchCase g') := by
  unfold Grammar.switchCase
  infer_instance

@[instance]
theorem switchStatement : Rises (Grammar.switchStatement g) (Grammar.switchStatement g') := by
  unfold Grammar.switchStatement
  infer_instance

@[instance]
theorem withStatement : Rises (Grammar.withStatement g) (Grammar.withStatement g') := by
  unfold Grammar.withStatement
  infer_instance

@[instance]
theorem labeledStatement : Rises (Grammar.labeledStatement g) (Grammar.labeledStatement g') := by
  unfold Grammar.labeledStatement
  infer_instance

@[instance]
theorem otherStatement (t : Token) :
    Rises (Grammar.otherStatement g t) (Grammar.otherStatement g' t) := by
  unfold Grammar.otherStatement
  infer_instance

@[instance]
theorem statement : Rises (Grammar.statement g) (Grammar.statement g') := by
  refine @nested _ _ _ (.andThen fun t => ?_)
  split <;> infer_instance

-- ---------------------------------------------------------------------------
-- The grammar
-- ---------------------------------------------------------------------------

@[instance]
theorem rule (phrase : Phrase) : Rises (Grammar.rule g phrase) (Grammar.rule g' phrase) := by
  cases phrase with
  | assignment => exact assignment
  | unary => exact unary
  | binary above => exact binary above
  | construction => exact construction
  | leftHandSide => exact leftHandSide
  | statement => exact statement
  | bindingTarget => exact bindingTarget

end Rules

end Rises

/-- What is read of a phrase in some rounds is read in more rounds, too. -/
theorem read_mono {n m : Nat} (h : n ≤ m) (phrase : Phrase) :
    Rises (read n phrase) (read m phrase) := by
  induction n generalizing m phrase with
  | zero => exact .exhausted _
  | succ n ih =>
    obtain ⟨m, rfl⟩ := Nat.exists_eq_add_of_lt h
    have hread : ∀ phrase, Rises (read n phrase) (read (n + m) phrase) :=
      ih (Nat.le_add_right n m)
    exact .rule phrase

/-- Whatever the rounds, a phrase is read in one way only. -/
theorem read_unique {n m : Nat} {phrase : Phrase} {s t u : State} {e e' : Node}
    (h : read n phrase s = .ok e t) (h' : read m phrase s = .ok e' u) : e = e' ∧ t = u := by
  have hn := (read_mono (Nat.le_max_left n m) phrase).ok h
  have hm := (read_mono (Nat.le_max_right n m) phrase).ok h'
  cases hn.symm.trans hm
  exact ⟨rfl, rfl⟩

end ModuleBundler.Grammar
