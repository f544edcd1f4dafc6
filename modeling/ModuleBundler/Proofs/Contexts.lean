import ModuleBundler.Proofs.Faults

/-!
# ModuleBundler — nesting and context are restored

A parser counts the phrases it is inside of, and knows whether `in` is an operator where it
is. Both are set around a phrase and have to be set back behind it, also where the phrase
fails. They are, by every rule and from every state: not only from those that are reached on
some text, so the count may be anything, the limit included.

Two things follow. The body of a `for` loop is read as the loop itself, however its head was
read; and so is whatever comes after the loop. The items of a module are each read as if
there was nothing before them, so that only a single item can be nested too deeply.

* `Restored` — the nesting and the `in` operator are as before.
* `IsRule` — the rules of the grammar.
* `forHead`, `forStatement_eq` — a `for` loop is its head and then its body.
* `contexts_restored` — every rule restores them.
-/

namespace ModuleBundler.Grammar

open Text (Cursor)

-- ---------------------------------------------------------------------------
-- States in the same context
-- ---------------------------------------------------------------------------

/-- Two states are equally deep, and `in` is an operator in both or in none. -/
structure Restored (s t : State) : Prop where
  depth_eq : t.depth = s.depth
  noIn_eq : t.noIn = s.noIn

/-- Taking tokens and reading them anew changes neither, and the brackets around phrases
undo what they did. -/
theorem Restored.stable : Stable Restored where
  refl _ := ⟨rfl, rfl⟩
  trans h h' := ⟨h'.depth_eq.trans h.depth_eq, h'.noIn_eq.trans h.noIn_eq⟩
  take _ := ⟨rfl, rfl⟩
  slash _ := ⟨rfl, rfl⟩
  brace _ := ⟨rfl, rfl⟩
  counted {s t} h := by
    have hdepth : t.depth = s.depth + 1 := h.depth_eq
    refine ⟨?_, h.noIn_eq⟩
    show t.depth - 1 = s.depth
    omega
  within _ h := ⟨h.depth_eq, rfl⟩

section

variable {α : Type} {p : Parser α} {s t : State}

theorem Composed.restores (h : Composed p) (s : State) : Restored s (stateAfter p s) :=
  h.leads Restored.stable s

theorem Composed.restores_of_ok (h : Composed p) {a : α} (hp : p s = .ok a t) : Restored s t := by
  have hrestored := h.restores s
  rwa [stateAfter_of_ok hp] at hrestored

/-- Whatever is read one after the other begins in the context of the first. -/
theorem Chain.restores (hp : Composed p) {as : List α} (h : Chain p s as t) : Restored s t := by
  induction h with
  | nil s => exact Restored.stable.refl s
  | cons hitem _ ih => exact Restored.stable.trans (hp.restores_of_ok hitem) ih

end

-- ---------------------------------------------------------------------------
-- Rules
-- ---------------------------------------------------------------------------

/-- The rules of the grammar, over a reading of the phrases inside them. -/
inductive IsRule (g : Reading) : {α : Type} → Parser α → Prop
  -- tokens and names
  | accept (k : TokenKind) : IsRule g (accept k)
  | expect (k : TokenKind) : IsRule g (expect k)
  | endOfStatement : IsRule g endOfStatement
  | takeValue : IsRule g takeValue
  | bindingName : IsRule g bindingName
  | anyName : IsRule g anyName
  | identifier : IsRule g identifier
  | stringText : IsRule g stringText
  | exportName : IsRule g exportName
  -- keys, patterns and parameters
  | propertyKey : IsRule g (propertyKey g)
  | bindingElement : IsRule g (bindingElement g)
  | restElement : IsRule g (restElement g)
  | patternProperty : IsRule g (patternProperty g)
  | objectPattern : IsRule g (objectPattern g)
  | arrayPattern : IsRule g (arrayPattern g)
  | bindingTarget : IsRule g (bindingTarget g)
  | parameters : IsRule g (parameters g)
  -- functions and classes
  | functionParts (isAsync nameRequired : Bool) : IsRule g (functionParts g isAsync nameRequired)
  | functionDeclaration (start : Nat) (isAsync nameRequired : Bool) :
    IsRule g (functionDeclaration g start isAsync nameRequired)
  | functionExpression (start : Nat) (isAsync : Bool) :
    IsRule g (functionExpression g start isAsync)
  | methodFunction (isAsync isGenerator : Bool) : IsRule g (methodFunction g isAsync isGenerator)
  | functionBody : IsRule g (functionBody g)
  | accessorKind : IsRule g accessorKind
  | memberHead : IsRule g memberHead
  | methodOrField (start : Nat) (isStatic : Bool) : IsRule g (methodOrField g start isStatic)
  | classMember : IsRule g (classMember g)
  | classBody : IsRule g (classBody g)
  | classParts (nameRequired : Bool) : IsRule g (classParts g nameRequired)
  | classDeclaration (nameRequired : Bool) : IsRule g (classDeclaration g nameRequired)
  | classExpression : IsRule g (classExpression g)
  -- expressions
  | literal (make : String → Literal) : IsRule g (literal make)
  | word (form : Form Node) : IsRule g (word form)
  | regex : IsRule g regex
  | templateLiteral : IsRule g (templateLiteral g)
  | inParentheses : IsRule g (inParentheses g)
  | parenthesized : IsRule g (parenthesized g)
  | spreadable : IsRule g (spreadable g)
  | arrayLiteral : IsRule g (arrayLiteral g)
  | arguments : IsRule g (arguments g)
  | objectProperty : IsRule g (objectProperty g)
  | objectLiteral : IsRule g (objectLiteral g)
  | primary : IsRule g (primary g)
  | memberName : IsRule g memberName
  | computedMember : IsRule g (computedMember g)
  | accesses (start : Nat) (calls : Bool) (n : Nat) (isOptional : Bool) (e : Node) :
    IsRule g (accesses g start calls n isOptional e)
  | construction : IsRule g (construction g)
  | importExpression : IsRule g (importExpression g)
  | leftHandSide : IsRule g (leftHandSide g)
  | updated : IsRule g (updated g)
  | unary : IsRule g (unary g)
  | binary (above : Nat) : IsRule g (binary g above)
  | conditional : IsRule g (conditional g)
  | yieldExpression : IsRule g (yieldExpression g)
  | arrowFunction : IsRule g (arrowFunction g)
  | assignment : IsRule g (assignment g)
  | expression : IsRule g (expression g)
  -- statements
  | bracedStatements : IsRule g (bracedStatements g)
  | block : IsRule g (block g)
  | variableDeclaration : IsRule g (variableDeclaration g)
  | variableStatement : IsRule g (variableStatement g)
  | expressionStatement : IsRule g (expressionStatement g)
  | ifStatement : IsRule g (ifStatement g)
  | whileStatement : IsRule g (whileStatement g)
  | doStatement : IsRule g (doStatement g)
  | forStatement : IsRule g (forStatement g)
  | returnStatement : IsRule g (returnStatement g)
  | jumpStatement (make : Option String → Form Node) : IsRule g (jumpStatement make)
  | throwStatement : IsRule g (throwStatement g)
  | catchClause : IsRule g (catchClause g)
  | tryStatement : IsRule g (tryStatement g)
  | switchCase : IsRule g (switchCase g)
  | switchStatement : IsRule g (switchStatement g)
  | withStatement : IsRule g (withStatement g)
  | labeledStatement : IsRule g (labeledStatement g)
  | debuggerStatement : IsRule g debuggerStatement
  | otherStatement (t : Token) : IsRule g (otherStatement g t)
  | statement : IsRule g (statement g)
  | phrase (phrase : Phrase) : IsRule g (g phrase)
  -- modules
  | fromClause : IsRule g fromClause
  | namedImports : IsRule g namedImports
  | namespaceImport : IsRule g namespaceImport
  | importDeclaration : IsRule g importDeclaration
  | exportList (start : Nat) : IsRule g (exportList start)
  | exportAll (start : Nat) : IsRule g (exportAll start)
  | defaultValue : IsRule g (defaultValue g)
  | exportedDeclaration (start : Nat) : IsRule g (exportedDeclaration g start)
  | exportDeclaration : IsRule g (exportDeclaration g)
  | moduleItem : IsRule g (moduleItem g)
  | program : IsRule g (program g)

theorem IsRule.composed {g : Reading} [∀ phrase, Composed (g phrase)] {α : Type} {p : Parser α}
    (h : IsRule g p) : Composed p := by
  cases h <;> infer_instance

-- ---------------------------------------------------------------------------
-- Heads of loops
-- ---------------------------------------------------------------------------

section Heads

variable (g : Reading)

/-- The rest of a `for` head over three clauses. -/
def clausesHead (first : Option Node) : Parser (Node → Form Node) := do
  expect (.punct .semicolon)
  let test ← clauseBefore g .semicolon
  let update ← clauseBefore g .closeParen
  return .forStatement first test update

/-- The rest of a `for` head over the values of an object. -/
def ofHead (isAwait : Bool) (left : Node) : Parser (Node → Form Node) := do
  advance
  let right ← allowIn (g .assignment)
  expect (.punct .closeParen)
  return fun body => .forOfStatement left.toTarget right body isAwait

/-- The rest of a `for` head over the keys of an object. -/
def inHead (left : Node) : Parser (Node → Form Node) := do
  advance
  let right ← allowIn (expression g)
  expect (.punct .closeParen)
  return fun body => .forInStatement left.toTarget right body

/-- The head of a `for` loop: the form of the loop, but for its body. -/
def forHead : Parser (Node → Form Node) := do
  expect (.word .forKw)
  let isAwait ← accept (.word .awaitKw)
  expect (.punct .openParen)
  let first ← forFirst g
  match ← kind, first with
  | .word .ofKw, some left => ofHead g isAwait left
  | .word .inKw, some left => inHead g left
  | _, _ => clausesHead g first

/-- What is left of a `for` loop behind its head. -/
def forBody (start : Nat) (form : Node → Form Node) : Parser Node := do
  let body ← g .statement
  nodeFrom start (form body)

/-- A `for` loop is its head and then its body. -/
theorem forStatement_eq : forStatement g = (do
    let start ← position
    let form ← forHead g
    forBody g start form) := by
  unfold forStatement forHead forBody
  simp only [bind_assoc]
  refine bind_congr fun start => bind_congr fun _ => bind_congr fun isAwait => bind_congr fun _ =>
    bind_congr fun first => bind_congr fun k => ?_
  split <;> simp only [forOf, forIn, forClauses, ofHead, inHead, clausesHead, bind_assoc, pure_bind]

@[instance]
theorem Composed.forHead [∀ phrase, Composed (g phrase)] : Composed (forHead g) := by
  unfold Grammar.forHead ofHead inHead clausesHead
  refine .first fun _ => .first fun isAwait => .first fun _ => .first fun first =>
    .first fun k => ?_
  split <;> infer_instance

variable {g}

/-- Behind the head of a `for` loop its body is read in the context of the loop. -/
theorem forStatement_body [∀ phrase, Composed (g phrase)] (s : State) :
    (∃ d t, forHead g s = .error d t ∧ forStatement g s = .error d t) ∨
      ∃ form t, forHead g s = .ok form t ∧ Restored s t ∧
        forStatement g s = forBody g s.token.start.offset form t := by
  have hrun : forStatement g s = (forHead g >>= forBody g s.token.start.offset) s := by
    rw [forStatement_eq]
    rfl
  rw [hrun]
  cases h : forHead g s with
  | ok form t =>
    have hrestored := (Composed.forHead g).restores_of_ok h
    exact .inr ⟨form, t, rfl, hrestored, bind_of_ok h⟩
  | error d t =>
    have hrefused : EStateM.bind (forHead g) (forBody g s.token.start.offset) s = .error d t := by
      rw [EStateM.bind, h]
    exact .inl ⟨d, t, rfl, hrefused⟩

end Heads

-- ---------------------------------------------------------------------------
-- Contexts
-- ---------------------------------------------------------------------------

/-- Every rule of the grammar leaves the nesting and the `in` operator as it found them, from
every state and also if it fails. So the body of a `for` loop is read in the context of the
loop, and statements after each other are read in the same one; and if a text is nested too
deeply then one of its items is, which is read as if it was the first. -/
theorem contexts_restored :
    (∀ n (α : Type) (p : Parser α), IsRule (read n) p → ∀ s, Restored s (stateAfter p s)) ∧
      (∀ n s, (∃ d t, forHead (read n) s = .error d t ∧ forStatement (read n) s = .error d t) ∨
        ∃ form t, forHead (read n) s = .ok form t ∧ Restored s t ∧
          forStatement (read n) s = forBody (read n) s.token.start.offset form t) ∧
      (∀ n s statements t, Chain (read n .statement) s statements t → Restored s t) ∧
      ∀ text d, Node.parse text = .error d → ∃ items c t, (Cursor.start text).Before c ∧
        Chain (moduleItem (read (text.utf8ByteSize + 1))) (.between text (Cursor.start text))
          items (.between text c) ∧
        moduleItem (read (text.utf8ByteSize + 1)) (.between text c) = .error d t := by
  refine ⟨fun n α p h s => h.composed.restores s, fun n s => forStatement_body s,
    fun n s statements t h => h.restores (Composed.read n .statement), fun text d h => ?_⟩
  exact parse_eq_error h

end ModuleBundler.Grammar
