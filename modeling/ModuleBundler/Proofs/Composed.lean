import ModuleBundler.Proofs.Forward
import ModuleBundler.Proofs.Loops

/-!
# ModuleBundler — what parsers are put together from

All parsers of the grammar are put together from a few steps: looking at the state, taking
the current token or reading it anew, failing, and two brackets around a phrase, which count
it as nested or set whether `in` is an operator there. What is kept by these steps is kept
by every parser, from every state, and whether it succeeds or fails.

The instances come in the order of the grammar. That a rule is put together so is found by
going through its definition; only where it goes by the kind of a token are the cases
written out.

* `Composed` — parsers that are put together from such steps.
* `Composed.loop` — loops of such parsers.
* `Composed.read`, `Composed.moduleItem`, `Composed.program` — the phrases and the modules.
* `Stable`, `Composed.leads` — what all steps keep is kept.
* `Composed.span_eq` — a fault is about the token where the parser stopped.
-/

namespace ModuleBundler.Grammar

/-- A parser that is put together from steps. -/
class inductive Composed : {α : Type} → Parser α → Prop
  /-- Looking at the state. -/
  | look {α : Type} (v : State → α) : Composed fun s => .ok (v s) s
  /-- Taking the current token. -/
  | take : Composed Grammar.advance
  /-- Reading a slash anew. -/
  | slash : Composed (Grammar.reread Token.asRegex)
  /-- Reading a closing brace anew. -/
  | brace : Composed (Grammar.reread Token.asTemplate)
  | refuse {α : Type} (fault : SyntaxFault) : Composed (Grammar.fail fault : Parser α)
  | giveUp {α : Type} : Composed (Grammar.exhausted : Parser α)
  | andThen {α β : Type} {p : Parser α} {f : α → Parser β} (first : Composed p)
    (second : ∀ a, Composed (f a)) : Composed (p >>= f)
  | counted {α : Type} {p : Parser α} (phrase : Composed p) : Composed (Grammar.nested p)
  | within {α : Type} {p : Parser α} (noIn : Bool) (phrase : Composed p) :
    Composed (Grammar.withIn noIn p)

namespace Composed

-- ---------------------------------------------------------------------------
-- Steps
-- ---------------------------------------------------------------------------

section Steps

variable {α β σ : Type}

@[instance]
theorem current : Composed Grammar.current := .look _

@[instance]
theorem kind : Composed Grammar.kind := .look _

@[instance]
theorem isAt (k : TokenKind) : Composed (Grammar.isAt k) := .look _

@[instance]
theorem position : Composed Grammar.position := .look _

@[instance]
theorem afterLineBreak : Composed Grammar.afterLineBreak := .look _

@[instance]
theorem rounds : Composed Grammar.rounds := .look _

@[instance]
theorem goesOn (op : TokenKind) (above : Nat) : Composed (Grammar.goesOn op above) := .look _

@[instance]
theorem atArrowFunction : Composed Grammar.atArrowFunction := .look _

@[instance]
theorem nodeFrom (start : Nat) (form : Form Node) : Composed (Grammar.nodeFrom start form) :=
  .look _

@[instance]
theorem pure (x : α) : Composed (Pure.pure x : Parser α) := .look fun _ => x

@[instance]
theorem advance : Composed Grammar.advance := .take

@[instance]
theorem fail (fault : SyntaxFault) : Composed (Grammar.fail fault : Parser α) := .refuse fault

@[instance]
theorem exhausted : Composed (Grammar.exhausted : Parser α) := .giveUp

@[instance]
theorem asRegex : Composed (Grammar.reread Token.asRegex) := .slash

@[instance]
theorem asTemplate : Composed (Grammar.reread Token.asTemplate) := .brace

@[instance]
theorem bind (p : Parser α) (f : α → Parser β) [Composed p] [∀ a, Composed (f a)] :
    Composed (p >>= f) := .andThen ‹_› ‹_›

/-- A step and what comes after it. -/
theorem first {p : Parser α} {f : α → Parser β} [Composed p] (h : ∀ a, Composed (f a)) :
    Composed (p >>= f) := .andThen ‹_› h

@[instance]
theorem map (f : α → β) (p : Parser α) [Composed p] : Composed (f <$> p) := by
  rw [map_eq_pure_bind]
  infer_instance

@[instance]
theorem ite (c : Prop) [Decidable c] (p q : Parser α) [Composed p] [Composed q] :
    Composed (if c then p else q) := by
  split <;> infer_instance

@[instance]
theorem nested (p : Parser α) [Composed p] : Composed (Grammar.nested p) := .counted ‹_›

@[instance]
theorem withIn (noIn : Bool) (p : Parser α) [Composed p] : Composed (Grammar.withIn noIn p) :=
  .within noIn ‹_›

@[instance]
theorem allowIn (p : Parser α) [Composed p] : Composed (Grammar.allowIn p) :=
  .within false ‹_›

-- ---------------------------------------------------------------------------
-- Tokens and names
-- ---------------------------------------------------------------------------

@[instance]
theorem accept (k : TokenKind) : Composed (Grammar.accept k) := by
  unfold Grammar.accept
  infer_instance

@[instance]
theorem expect (k : TokenKind) : Composed (Grammar.expect k) := by
  unfold Grammar.expect
  infer_instance

@[instance]
theorem endOfStatement : Composed Grammar.endOfStatement := by
  unfold Grammar.endOfStatement
  infer_instance

@[instance]
theorem takeValue : Composed Grammar.takeValue := by
  unfold Grammar.takeValue
  infer_instance

@[instance]
theorem bindingName : Composed Grammar.bindingName := by
  unfold Grammar.bindingName
  infer_instance

@[instance]
theorem anyName : Composed Grammar.anyName := by
  unfold Grammar.anyName
  infer_instance

@[instance]
theorem identifier : Composed Grammar.identifier := by
  unfold Grammar.identifier
  infer_instance

@[instance]
theorem stringText : Composed Grammar.stringText := by
  unfold Grammar.stringText
  infer_instance

@[instance]
theorem exportName : Composed Grammar.exportName := by
  unfold Grammar.exportName
  infer_instance

-- ---------------------------------------------------------------------------
-- Loops
-- ---------------------------------------------------------------------------

/-- A loop is put together from as many rounds as it is given. -/
@[instance]
theorem loop (round : σ → Parser (σ ⊕ β)) [∀ x, Composed (round x)] (n : Nat) (x : σ) :
    Composed (Grammar.loop round n x) := by
  induction n generalizing x with
  | zero =>
    unfold Grammar.loop
    infer_instance
  | succ n ih =>
    unfold Grammar.loop
    refine .first fun r => ?_
    cases r with
    | inl y => exact ih y
    | inr b => exact .pure b

@[instance]
theorem many (ends : TokenKind → Bool) (item : Parser α) [Composed item] :
    Composed (Grammar.many ends item) := by
  refine .first fun n => ?_
  rw [many_go_eq]
  unfold manyRound
  infer_instance

@[instance]
theorem listUntil (closing : Punctuator) (entry : Parser (Entry α)) [Composed entry] :
    Composed (Grammar.listUntil closing entry) := by
  have hround : ∀ acc, Composed (listRound closing entry acc) := by
    intro acc
    unfold listRound
    refine .first fun done => @ite _ _ _ _ _ inferInstance (.andThen ‹_› fun e => ?_)
    cases e <;> infer_instance
  refine .first fun n => ?_
  rw [listUntil_go_eq]
  infer_instance

@[instance]
theorem separated (item : Parser α) [Composed item] : Composed (Grammar.separated item) := by
  refine .first fun n => .andThen ‹_› fun first => ?_
  rw [separated_go_eq]
  unfold separatedRound
  infer_instance

end Steps

-- ---------------------------------------------------------------------------
-- Keys, patterns and parameters
-- ---------------------------------------------------------------------------

section Rules

variable {g : Reading} [hg : ∀ phrase, Composed (g phrase)]

@[instance]
theorem sequence (operand : Parser Node) [Composed operand] :
    Composed (Grammar.sequence operand) := by
  unfold Grammar.sequence
  refine .first fun start => .first fun es => ?_
  split <;> infer_instance

@[instance]
theorem expression : Composed (Grammar.expression g) := by
  unfold Grammar.expression
  infer_instance

@[instance]
theorem propertyKey : Composed (Grammar.propertyKey g) := by
  unfold Grammar.propertyKey
  refine .first fun k => ?_
  split <;> infer_instance

@[instance]
theorem withDefault (start : Nat) (target : Node) (value : Parser Node) [Composed value] :
    Composed (Grammar.withDefault start target value) := by
  unfold Grammar.withDefault
  infer_instance

@[instance]
theorem bindingElement : Composed (Grammar.bindingElement g) := by
  unfold Grammar.bindingElement
  infer_instance

@[instance]
theorem restElement : Composed (Grammar.restElement g) := by
  unfold Grammar.restElement
  infer_instance

@[instance]
theorem patternProperty : Composed (Grammar.patternProperty g) := by
  unfold Grammar.patternProperty
  infer_instance

@[instance]
theorem objectPattern : Composed (Grammar.objectPattern g) := by
  unfold Grammar.objectPattern
  infer_instance

@[instance]
theorem arrayPattern : Composed (Grammar.arrayPattern g) := by
  unfold Grammar.arrayPattern
  have hentry : Composed (elementEntry g) := by
    unfold elementEntry
    infer_instance
  exact .first fun start => .first fun _ =>
    .andThen (.listUntil _ (elementEntry g)) fun elements => inferInstance

@[instance]
theorem bindingTarget : Composed (Grammar.bindingTarget g) := by
  unfold Grammar.bindingTarget
  refine .counted (.first fun k => ?_)
  split <;> infer_instance

@[instance]
theorem parameters : Composed (Grammar.parameters g) := by
  unfold Grammar.parameters
  infer_instance

-- ---------------------------------------------------------------------------
-- Functions and classes
-- ---------------------------------------------------------------------------

@[instance]
theorem bracedStatements : Composed (Grammar.bracedStatements g) := by
  unfold Grammar.bracedStatements
  infer_instance

@[instance]
theorem block : Composed (Grammar.block g) := by
  unfold Grammar.block
  infer_instance

@[instance]
theorem functionBody : Composed (Grammar.functionBody g) := by
  unfold Grammar.functionBody
  infer_instance

@[instance]
theorem optionalName (isRequired : Bool) : Composed (Grammar.optionalName isRequired) := by
  unfold Grammar.optionalName
  infer_instance

@[instance]
theorem functionParts (isAsync nameRequired : Bool) :
    Composed (Grammar.functionParts g isAsync nameRequired) := by
  unfold Grammar.functionParts
  infer_instance

@[instance]
theorem functionDeclaration (start : Nat) (isAsync nameRequired : Bool) :
    Composed (Grammar.functionDeclaration g start isAsync nameRequired) := by
  unfold Grammar.functionDeclaration
  infer_instance

@[instance]
theorem functionExpression (start : Nat) (isAsync : Bool) :
    Composed (Grammar.functionExpression g start isAsync) := by
  unfold Grammar.functionExpression
  infer_instance

@[instance]
theorem methodFunction (isAsync isGenerator : Bool) :
    Composed (Grammar.methodFunction g isAsync isGenerator) := by
  unfold Grammar.methodFunction
  infer_instance

@[instance]
theorem qualifier (word : Keyword) : Composed (Grammar.qualifier word) := by
  unfold Grammar.qualifier
  infer_instance

@[instance]
theorem accessorKind : Composed Grammar.accessorKind := by
  unfold Grammar.accessorKind
  infer_instance

@[instance]
theorem memberHead : Composed Grammar.memberHead := by
  unfold Grammar.memberHead
  infer_instance

@[instance]
theorem methodOrField (start : Nat) (isStatic : Bool) :
    Composed (Grammar.methodOrField g start isStatic) := by
  unfold Grammar.methodOrField
  refine .first fun head => .first fun key => .first fun isMethod => ?_
  dsimp only
  infer_instance

@[instance]
theorem classMember : Composed (Grammar.classMember g) := by
  unfold Grammar.classMember
  infer_instance

@[instance]
theorem classBody : Composed (Grammar.classBody g) := by
  unfold Grammar.classBody
  infer_instance

@[instance]
theorem classParts (nameRequired : Bool) : Composed (Grammar.classParts g nameRequired) := by
  unfold Grammar.classParts
  infer_instance

@[instance]
theorem classDeclaration (nameRequired : Bool) :
    Composed (Grammar.classDeclaration g nameRequired) := by
  unfold Grammar.classDeclaration
  infer_instance

@[instance]
theorem classExpression : Composed (Grammar.classExpression g) := by
  unfold Grammar.classExpression
  infer_instance

-- ---------------------------------------------------------------------------
-- Primary expressions
-- ---------------------------------------------------------------------------

@[instance]
theorem literal (make : String → Literal) : Composed (Grammar.literal make) := by
  unfold Grammar.literal
  infer_instance

@[instance]
theorem word (form : Form Node) : Composed (Grammar.word form) := by
  unfold Grammar.word
  infer_instance

@[instance]
theorem regex : Composed Grammar.regex := by
  unfold Grammar.regex
  infer_instance

@[instance]
theorem substitutions (n : Nat) (quasis : List String) (expressions : List Node) :
    Composed (Grammar.substitutions g n quasis expressions) := by
  have hpiece : ∀ quasis expressions, Composed (pieceRound quasis expressions) := by
    intro quasis expressions
    unfold pieceRound
    refine .andThen .brace fun _ => .andThen .current fun piece => ?_
    split <;> infer_instance
  rw [substitutions_eq]
  unfold substitutionRound substituted
  infer_instance

@[instance]
theorem templateLiteral : Composed (Grammar.templateLiteral g) := by
  unfold Grammar.templateLiteral
  infer_instance

@[instance]
theorem inParentheses : Composed (Grammar.inParentheses g) := by
  unfold Grammar.inParentheses
  infer_instance

@[instance]
theorem parenthesized : Composed (Grammar.parenthesized g) := by
  unfold Grammar.parenthesized
  infer_instance

@[instance]
theorem spreadable : Composed (Grammar.spreadable g) := by
  unfold Grammar.spreadable
  infer_instance

@[instance]
theorem arrayLiteral : Composed (Grammar.arrayLiteral g) := by
  unfold Grammar.arrayLiteral
  infer_instance

@[instance]
theorem arguments : Composed (Grammar.arguments g) := by
  unfold Grammar.arguments
  infer_instance

@[instance]
theorem propertyAfter (start : Nat) (head : MemberHead) :
    Composed (Grammar.propertyAfter g start head) := by
  unfold Grammar.propertyAfter
  refine .first fun keyStart => .first fun first => .first fun key => .first fun isMethod => ?_
  dsimp only
  infer_instance

@[instance]
theorem objectProperty : Composed (Grammar.objectProperty g) := by
  unfold Grammar.objectProperty
  infer_instance

@[instance]
theorem objectLiteral : Composed (Grammar.objectLiteral g) := by
  unfold Grammar.objectLiteral
  infer_instance

@[instance]
theorem primary : Composed (Grammar.primary g) := by
  unfold Grammar.primary
  refine .first fun t => .first fun start => ?_
  split <;> infer_instance

-- ---------------------------------------------------------------------------
-- Expressions
-- ---------------------------------------------------------------------------

@[instance]
theorem memberName : Composed Grammar.memberName := by
  unfold Grammar.memberName
  infer_instance

@[instance]
theorem computedMember : Composed (Grammar.computedMember g) := by
  unfold Grammar.computedMember
  infer_instance

@[instance]
theorem optionalAccess (start : Nat) (e : Node) : Composed (Grammar.optionalAccess g start e) := by
  unfold Grammar.optionalAccess
  refine .first fun k => ?_
  split <;> infer_instance

@[instance]
theorem accesses (start : Nat) (calls : Bool) (n : Nat) (isOptional : Bool) (e : Node) :
    Composed (Grammar.accesses g start calls n isOptional e) := by
  have hround : ∀ x, Composed (accessRound g start calls x) := by
    intro x
    unfold accessRound
    refine .first fun k => ?_
    split <;> infer_instance
  rw [accesses_eq]
  infer_instance

@[instance]
theorem metaProperty (start : Nat) (object property : String) :
    Composed (Grammar.metaProperty start object property) := by
  unfold Grammar.metaProperty
  infer_instance

@[instance]
theorem construction : Composed (Grammar.construction g) := by
  unfold Grammar.construction
  refine .first fun start => .first fun _ =>
    .first fun isMeta => ?_
  refine @ite _ _ _ _ _ inferInstance ?_
  refine .andThen .position fun calleeStart => .first fun k => ?_
  dsimp only
  split <;> infer_instance

@[instance]
theorem importExpression : Composed (Grammar.importExpression g) := by
  unfold Grammar.importExpression
  refine .first fun start => .first fun _ => .first fun isMeta => ?_
  dsimp only
  split
  · infer_instance
  · refine .first fun _ => .first fun source => .first fun more => ?_
    split <;> infer_instance

@[instance]
theorem leftHandSide : Composed (Grammar.leftHandSide g) := by
  unfold Grammar.leftHandSide
  refine .first fun start => .first fun k => ?_
  dsimp only
  split <;> infer_instance

@[instance]
theorem updated : Composed (Grammar.updated g) := by
  unfold Grammar.updated
  infer_instance

@[instance]
theorem unary : Composed (Grammar.unary g) := by
  unfold Grammar.unary
  infer_instance

@[instance]
theorem operations (start above n : Nat) (left : Node) :
    Composed (Grammar.operations g start above n left) := by
  rw [operations_eq]
  unfold operationRound
  infer_instance

@[instance]
theorem binary (above : Nat) : Composed (Grammar.binary g above) := by
  unfold Grammar.binary
  infer_instance

@[instance]
theorem conditional : Composed (Grammar.conditional g) := by
  unfold Grammar.conditional
  infer_instance

@[instance]
theorem yieldExpression : Composed (Grammar.yieldExpression g) := by
  unfold Grammar.yieldExpression
  exact .first fun start => .first fun _ => .first fun broken => inferInstance

@[instance]
theorem arrowBody : Composed (Grammar.arrowBody g) := by
  unfold Grammar.arrowBody
  infer_instance

@[instance]
theorem arrowFunction : Composed (Grammar.arrowFunction g) := by
  have hend : ∀ start isAsync params, Composed (arrowEnd g start isAsync params) := by
    intro start isAsync params
    unfold arrowEnd
    dsimp only
    infer_instance
  rw [arrowFunction_eq]
  unfold arrowParts
  dsimp only
  infer_instance

@[instance]
theorem assignment : Composed (Grammar.assignment g) := by
  unfold Grammar.assignment
  infer_instance

-- ---------------------------------------------------------------------------
-- Statements
-- ---------------------------------------------------------------------------

@[instance]
theorem declarator : Composed (Grammar.declarator g) := by
  unfold Grammar.declarator
  infer_instance

@[instance]
theorem variableDeclaration : Composed (Grammar.variableDeclaration g) := by
  unfold Grammar.variableDeclaration
  refine .first fun start => .first fun k => ?_
  split <;> infer_instance

@[instance]
theorem variableStatement : Composed (Grammar.variableStatement g) := by
  unfold Grammar.variableStatement
  infer_instance

@[instance]
theorem expressionStatement : Composed (Grammar.expressionStatement g) := by
  unfold Grammar.expressionStatement
  infer_instance

@[instance]
theorem ifStatement : Composed (Grammar.ifStatement g) := by
  unfold Grammar.ifStatement
  infer_instance

@[instance]
theorem whileStatement : Composed (Grammar.whileStatement g) := by
  unfold Grammar.whileStatement
  infer_instance

@[instance]
theorem doStatement : Composed (Grammar.doStatement g) := by
  unfold Grammar.doStatement
  infer_instance

@[instance]
theorem forFirst : Composed (Grammar.forFirst g) := by
  unfold Grammar.forFirst
  refine .first fun t => ?_
  split <;> infer_instance

@[instance]
theorem clauseBefore (ending : Punctuator) : Composed (Grammar.clauseBefore g ending) := by
  unfold Grammar.clauseBefore
  infer_instance

@[instance]
theorem forClauses (start : Nat) (first : Option Node) :
    Composed (Grammar.forClauses g start first) := by
  unfold Grammar.forClauses
  infer_instance

@[instance]
theorem forOf (start : Nat) (isAwait : Bool) (left : Node) :
    Composed (Grammar.forOf g start isAwait left) := by
  unfold Grammar.forOf
  infer_instance

@[instance]
theorem forIn (start : Nat) (left : Node) : Composed (Grammar.forIn g start left) := by
  unfold Grammar.forIn
  infer_instance

@[instance]
theorem forStatement : Composed (Grammar.forStatement g) := by
  unfold Grammar.forStatement
  refine .first fun start => .first fun _ => .first fun isAwait => .first fun _ =>
    .first fun first => .first fun k => ?_
  split <;> infer_instance

@[instance]
theorem returnStatement : Composed (Grammar.returnStatement g) := by
  unfold Grammar.returnStatement
  infer_instance

@[instance]
theorem jumpStatement (make : Option String → Form Node) :
    Composed (Grammar.jumpStatement make) := by
  unfold Grammar.jumpStatement
  infer_instance

@[instance]
theorem throwStatement : Composed (Grammar.throwStatement g) := by
  unfold Grammar.throwStatement
  refine .first fun start => .first fun _ => .first fun broken => ?_
  dsimp only
  infer_instance

@[instance]
theorem catchClause : Composed (Grammar.catchClause g) := by
  unfold Grammar.catchClause
  refine .first fun start => .first fun _ => .first fun bound => ?_
  dsimp only
  split <;> infer_instance

@[instance]
theorem tryStatement : Composed (Grammar.tryStatement g) := by
  unfold Grammar.tryStatement
  refine .first fun start => .first fun _ => .first fun body => .first fun caught => ?_
  dsimp only
  split <;> exact .first fun handler => .first fun final => inferInstance

@[instance]
theorem caseTest : Composed (Grammar.caseTest g) := by
  unfold Grammar.caseTest
  refine .first fun k => ?_
  split <;> infer_instance

@[instance]
theorem switchCase : Composed (Grammar.switchCase g) := by
  unfold Grammar.switchCase
  infer_instance

@[instance]
theorem switchStatement : Composed (Grammar.switchStatement g) := by
  unfold Grammar.switchStatement
  infer_instance

@[instance]
theorem withStatement : Composed (Grammar.withStatement g) := by
  unfold Grammar.withStatement
  infer_instance

@[instance]
theorem labeledStatement : Composed (Grammar.labeledStatement g) := by
  unfold Grammar.labeledStatement
  infer_instance

@[instance]
theorem debuggerStatement : Composed Grammar.debuggerStatement := by
  unfold Grammar.debuggerStatement
  infer_instance

@[instance]
theorem otherStatement (t : Token) : Composed (Grammar.otherStatement g t) := by
  unfold Grammar.otherStatement
  infer_instance

@[instance]
theorem statement : Composed (Grammar.statement g) := by
  unfold Grammar.statement
  refine .counted (.first fun t => ?_)
  split <;> infer_instance

-- ---------------------------------------------------------------------------
-- Phrases
-- ---------------------------------------------------------------------------

@[instance]
theorem rule (phrase : Phrase) : Composed (Grammar.rule g phrase) := by
  unfold Grammar.rule
  split <;> infer_instance

@[instance]
theorem read (n : Nat) (phrase : Phrase) : Composed (Grammar.read n phrase) := by
  induction n generalizing phrase with
  | zero => exact .giveUp
  | succ n ih => exact .rule phrase

-- ---------------------------------------------------------------------------
-- Modules
-- ---------------------------------------------------------------------------

@[instance]
theorem fromClause : Composed Grammar.fromClause := by
  unfold Grammar.fromClause
  infer_instance

@[instance]
theorem importSpecifierFrom (start : Nat) (imported localName : String) :
    Composed (Grammar.importSpecifierFrom start imported localName) := .look _

@[instance]
theorem importSpecifier : Composed Grammar.importSpecifier := by
  unfold Grammar.importSpecifier
  infer_instance

@[instance]
theorem namedImports : Composed Grammar.namedImports := by
  unfold Grammar.namedImports
  infer_instance

@[instance]
theorem namespaceImport : Composed Grammar.namespaceImport := by
  unfold Grammar.namespaceImport
  infer_instance

@[instance]
theorem furtherImports : Composed Grammar.furtherImports := by
  unfold Grammar.furtherImports
  refine .first fun k => ?_
  split <;> infer_instance

@[instance]
theorem importSpecifiers : Composed Grammar.importSpecifiers := by
  unfold Grammar.importSpecifiers
  infer_instance

@[instance]
theorem importDeclaration : Composed Grammar.importDeclaration := by
  unfold Grammar.importDeclaration
  infer_instance

@[instance]
theorem exportSpecifier : Composed Grammar.exportSpecifier := by
  unfold Grammar.exportSpecifier
  refine .first fun start => .first fun localName => .first fun renamed => ?_
  dsimp only
  split <;> exact .first fun exported => .look _

@[instance]
theorem exportList (start : Nat) : Composed (Grammar.exportList start) := by
  unfold Grammar.exportList
  infer_instance

@[instance]
theorem exportAll (start : Nat) : Composed (Grammar.exportAll start) := by
  unfold Grammar.exportAll
  infer_instance

@[instance]
theorem defaultValue : Composed (Grammar.defaultValue g) := by
  unfold Grammar.defaultValue
  refine .first fun t => ?_
  split <;> infer_instance

@[instance]
theorem exportedDeclaration (start : Nat) : Composed (Grammar.exportedDeclaration g start) := by
  unfold Grammar.exportedDeclaration
  infer_instance

@[instance]
theorem exportDeclaration : Composed (Grammar.exportDeclaration g) := by
  unfold Grammar.exportDeclaration
  refine .first fun start => .first fun _ => .first fun t => ?_
  split <;> infer_instance

@[instance]
theorem moduleItem : Composed (Grammar.moduleItem g) := by
  unfold Grammar.moduleItem
  refine .first fun t => ?_
  split <;> infer_instance

@[instance]
theorem program : Composed (Grammar.program g) :=
  .andThen .take fun _ => .first fun _ => .look _

end Rules

end Composed

-- ---------------------------------------------------------------------------
-- What steps keep
-- ---------------------------------------------------------------------------

/-- The state in which a parser leaves off, with a value or with a diagnostic. -/
def stateAfter {α : Type} (p : Parser α) (s : State) : State :=
  match p s with
  | .ok _ t | .error _ t => t

section

variable {α β : Type} {p : Parser α} {f : α → Parser β} {s t : State} {a : α} {d : Diagnostic}

theorem stateAfter_of_ok (h : p s = .ok a t) : stateAfter p s = t := by
  rw [stateAfter, h]

theorem stateAfter_of_error (h : p s = .error d t) : stateAfter p s = t := by
  rw [stateAfter, h]

/-- Two steps leave off where the first one fails, or where the second one does after it. -/
theorem stateAfter_bind (p : Parser α) (f : α → Parser β) (s : State) :
    stateAfter (p >>= f) s = stateAfter p s ∨
      ∃ a, stateAfter (p >>= f) s = stateAfter (f a) (stateAfter p s) := by
  have heq : (p >>= f) s = EStateM.bind p f s := rfl
  unfold stateAfter
  rw [heq, EStateM.bind]
  cases p s with
  | ok a t => exact .inr ⟨a, rfl⟩
  | error d t => exact .inl rfl

/-- A phrase that counts as nested closes what it opened, unless it does not begin. -/
theorem stateAfter_nested (p : Parser α) (s : State) :
    (∃ t, stateAfter p { s with depth := s.depth + 1 } = t ∧
      stateAfter (nested p) s = { t with depth := t.depth - 1 }) ∨
      stateAfter (nested p) s = s := by
  cases h : nested p s with
  | ok a u =>
    obtain ⟨t, hp, rfl⟩ := nested_ok h
    exact .inl ⟨t, stateAfter_of_ok hp, stateAfter_of_ok h⟩
  | error d u =>
    rcases nested_error h with ⟨t, hp, rfl⟩ | ⟨-, rfl⟩
    · exact .inl ⟨t, stateAfter_of_error hp, stateAfter_of_error h⟩
    · exact .inr (stateAfter_of_error h)

theorem stateAfter_withIn (noIn : Bool) (p : Parser α) (s : State) :
    ∃ t, stateAfter p { s with noIn := noIn } = t ∧
      stateAfter (withIn noIn p) s = { t with noIn := s.noIn } := by
  cases h : withIn noIn p s with
  | ok a u =>
    obtain ⟨t, hp, rfl⟩ := withIn_ok h
    exact ⟨t, stateAfter_of_ok hp, stateAfter_of_ok h⟩
  | error d u =>
    obtain ⟨t, hp, rfl⟩ := withIn_error h
    exact ⟨t, stateAfter_of_error hp, stateAfter_of_error h⟩

end

/-- A relation of the states before and after that all steps keep, and phrases if it is
kept inside them. -/
structure Stable (R : State → State → Prop) : Prop where
  refl : ∀ s, R s s
  trans : ∀ {s t u}, R s t → R t u → R s u
  take : ∀ s : State, R s s.taken
  slash : ∀ s : State, R s { s with token := s.token.asRegex }
  brace : ∀ s : State, R s { s with token := s.token.asTemplate }
  counted : ∀ {s t : State}, R { s with depth := s.depth + 1 } t →
    R s { t with depth := t.depth - 1 }
  within : ∀ {s t : State} (noIn : Bool), R { s with noIn := noIn } t →
    R s { t with noIn := s.noIn }

namespace Composed

variable {α : Type} {p : Parser α} {s t : State} {d : Diagnostic}

/-- What all steps keep holds of the states before and after every parser, whether it
succeeds or fails. -/
theorem leads {R : State → State → Prop} (hR : Stable R) (h : Composed p) (s : State) :
    R s (stateAfter p s) := by
  induction h generalizing s with
  | look | refuse | giveUp => exact hR.refl s
  | take => exact hR.take s
  | slash => exact hR.slash s
  | brace => exact hR.brace s
  | @andThen _ _ p f _ _ ihp ihf =>
    rcases stateAfter_bind p f s with heq | ⟨a, heq⟩
    · rw [heq]
      exact ihp s
    · rw [heq]
      exact hR.trans (ihp s) (ihf a _)
  | @counted _ p _ ih =>
    rcases stateAfter_nested p s with ⟨t, ht, heq⟩ | heq
    · rw [heq]
      exact hR.counted (ht ▸ ih _)
    · rw [heq]
      exact hR.refl s
  | @within _ p noIn _ ih =>
    obtain ⟨t, ht, heq⟩ := stateAfter_withIn noIn p s
    rw [heq]
    exact hR.within noIn (ht ▸ ih _)

/-- A parser fails at the current token, whatever the fault is. -/
theorem span_eq (h : Composed p) (hp : p s = .error d t) : d.span = t.token.span := by
  induction h generalizing s t with
  | look | take | slash | brace => cases hp
  | refuse fault =>
    cases hp
    exact State.diagnostic_span _ _
  | giveUp =>
    cases hp
    rfl
  | andThen _ _ ihp ihf =>
    rcases bind_error hp with hfirst | ⟨a, u, -, hsecond⟩
    · exact ihp hfirst
    · exact ihf a hsecond
  | counted _ ih =>
    rcases nested_error hp with ⟨u, hin, rfl⟩ | ⟨rfl, rfl⟩
    · have hspan : d.span = u.token.span := ih hin
      exact hspan
    · exact State.diagnostic_span _ _
  | within noIn _ ih =>
    obtain ⟨u, hin, rfl⟩ := withIn_error hp
    have hspan : d.span = u.token.span := ih hin
    exact hspan

end Composed

end ModuleBundler.Grammar
