import ModuleBundler.Grammar.Primary
import ModuleBundler.Tree.Pattern

/-!
# ModuleBundler — rules for expressions

From member accesses and calls up to assignments. Binary operators are read by
precedence: an operand takes in the operators after it that bind tighter than
the one before it.

* `precedence` — how tightly an operator binds.
* `Node.toTarget` is applied where an equals sign shows that the literal before
  it was a pattern.
-/

namespace ModuleBundler.Grammar

-- ---------------------------------------------------------------------------
-- Member accesses and calls
-- ---------------------------------------------------------------------------

/-- The name after a dot. -/
def memberName : Parser Node := do
  let t ← current
  let start ← position
  if t.kind = .privateName then word (.privateName t.value)
  else
    let name ← anyName
    nodeFrom start (.propertyName name)

/-- An expression in brackets. -/
def computedMember (g : Reading) : Parser Node := do
  expect (.punct .openBracket)
  let e ← allowIn (expression g)
  expect (.punct .closeBracket)
  return e

/-- What follows `?.`: arguments, a computed member or a name. -/
def optionalAccess (g : Reading) (start : Nat) (e : Node) : Parser Node := do
  match ← kind with
  | .punct .openParen => nodeFrom start (.callExpression e (← arguments g) true)
  | .punct .openBracket => nodeFrom start (.memberExpression e (← computedMember g) true true)
  | _ => nodeFrom start (.memberExpression e (← memberName) false true)

/-- The accesses, calls and templates that follow an expression. Without `calls`
only accesses and templates do. No template may follow once an optional access
did. -/
def accesses (g : Reading) (start : Nat) (calls : Bool) : Nat → Bool → Node → Parser Node
  | 0, _, _ => exhausted
  | n + 1, isOptional, e => do
    match ← kind with
    | .punct .dot =>
      advance
      let property ← memberName
      accesses g start calls n isOptional
        (← nodeFrom start (.memberExpression e property false false))
    | .punct .questionDot =>
      if calls then
        advance
        accesses g start calls n true (← optionalAccess g start e)
      else return e
    | .punct .openBracket =>
      let property ← computedMember g
      accesses g start calls n isOptional
        (← nodeFrom start (.memberExpression e property true false))
    | .templateWhole | .templateHead =>
      if isOptional then fail .templateInOptionalChain
      else
        let quasi ← templateLiteral g
        accesses g start calls n isOptional (← nodeFrom start (.taggedTemplate e quasi))
    | .punct .openParen =>
      if calls then
        let values ← arguments g
        accesses g start calls n isOptional
          (← nodeFrom start (.callExpression e values false))
      else return e
    | _ => return e

/-- A word and the name after a dot, which has to be the one given. -/
def metaProperty (start : Nat) (object property : String) : Parser Node := do
  let name ← anyName
  if name = property then nodeFrom start (.metaProperty object name)
  else fail (.expectedWord property)

/-- An expression that begins with `new`. -/
def construction (g : Reading) : Parser Node := do
  let start ← position
  expect (.word .newKw)
  if ← accept (.punct .dot) then metaProperty start "new" "target"
  else
    let calleeStart ← position
    let callee ←
      match ← kind with
      | .word .newKw => g .construction
      | .word .superKw => word .superExpression
      | _ => primary g
    let callee ← accesses g calleeStart false (← rounds) false callee
    let values ← if ← isAt (.punct .openParen) then arguments g else pure []
    nodeFrom start (.newExpression callee values)

/-- A dynamic import, or `import.meta`. A second argument is read and dropped. -/
def importExpression (g : Reading) : Parser Node := do
  let start ← position
  expect (.word .importKw)
  if ← accept (.punct .dot) then metaProperty start "import" "meta"
  else
    expect (.punct .openParen)
    let source ← allowIn (g .assignment)
    if ← accept (.punct .comma) then
      if !(← isAt (.punct .closeParen)) then
        let _ ← allowIn (g .assignment)
        let _ ← accept (.punct .comma)
    expect (.punct .closeParen)
    nodeFrom start (.importExpression source)

/-- Member accesses and calls. -/
def leftHandSide (g : Reading) : Parser Node := do
  let start ← position
  let e ←
    match ← kind with
    | .word .newKw => construction g
    | .word .superKw => word .superExpression
    | .word .importKw => importExpression g
    | _ => primary g
  accesses g start true (← rounds) false e

-- ---------------------------------------------------------------------------
-- Operators
-- ---------------------------------------------------------------------------

/-- The operators that stand before a single operand. -/
def isUnaryOperator : TokenKind → Bool
  | .word .deleteKw | .word .voidKw | .word .typeofKw => true
  | .punct .plus | .punct .minus | .punct .tilde | .punct .bang => true
  | _ => false

/-- The operators that step a variable up or down. -/
def isUpdateOperator : TokenKind → Bool
  | .punct .increment | .punct .decrement => true
  | _ => false

/-- An operand with an update operator after it, on the same line. -/
def updated (g : Reading) : Parser Node := do
  let start ← position
  let e ← leftHandSide g
  let t ← current
  if isUpdateOperator t.kind && !t.afterLineBreak then
    advance
    nodeFrom start (.updateExpression t.kind false e)
  else return e

/-- An operand with the operators before it. -/
def unary (g : Reading) : Parser Node := nested do
  let start ← position
  let op ← kind
  if isUnaryOperator op then
    advance
    nodeFrom start (.unaryExpression op (← g .unary))
  else if isUpdateOperator op then
    advance
    nodeFrom start (.updateExpression op true (← g .unary))
  else if op = .word .awaitKw then
    advance
    nodeFrom start (.awaitExpression (← g .unary))
  else updated g

/-- How tightly a binary operator binds; zero for all else. -/
def precedence : TokenKind → Nat
  | .punct .coalesce | .punct .logicalOr => 1
  | .punct .logicalAnd => 2
  | .punct .bar => 3
  | .punct .caret => 4
  | .punct .ampersand => 5
  | .punct .equal | .punct .notEqual | .punct .strictEqual | .punct .strictNotEqual => 6
  | .punct .less | .punct .greater | .punct .lessEqual | .punct .greaterEqual => 7
  | .word .instanceOfKw | .word .inKw => 7
  | .punct .shiftLeft | .punct .shiftRight | .punct .shiftRightZero => 8
  | .punct .plus | .punct .minus => 9
  | .punct .star | .punct .slash | .punct .percent => 10
  | .punct .power => 11
  | _ => 0

/-- The precedence that the operators in the right operand have to exceed. Only
`**` takes in operators of its own precedence there. -/
def rightPrecedence (op : TokenKind) : Nat :=
  if op = .punct .power then precedence op - 1 else precedence op

/-- Whether a token goes on with an operand as a binary operator that binds
tighter than a precedence. -/
def goesOn (op : TokenKind) (above : Nat) : Parser Bool := fun s =>
  .ok (above < precedence op && !(op = .word .inKw && s.noIn)) s

/-- The operators and operands that follow an operand. -/
def operations (g : Reading) (start above : Nat) : Nat → Node → Parser Node
  | 0, _ => exhausted
  | n + 1, left => do
    let op ← kind
    if ← goesOn op above then
      advance
      let right ← g (.binary (rightPrecedence op))
      operations g start above n (← nodeFrom start (.binaryExpression op left right))
    else return left

/-- Operands joined by operators that bind tighter than a precedence. -/
def binary (g : Reading) (above : Nat) : Parser Node := do
  let start ← position
  let left ← unary g
  operations g start above (← rounds) left

-- ---------------------------------------------------------------------------
-- Conditions, functions and assignments
-- ---------------------------------------------------------------------------

/-- A condition with two outcomes, or what stands for one. -/
def conditional (g : Reading) : Parser Node := do
  let start ← position
  let test ← binary g 0
  if ← accept (.punct .question) then
    let consequent ← allowIn (g .assignment)
    expect (.punct .colon)
    let alternate ← g .assignment
    nodeFrom start (.conditionalExpression test consequent alternate)
  else return test

/-- An expression that begins with `yield`. -/
def yieldExpression (g : Reading) : Parser Node := do
  let start ← position
  expect (.word .yieldKw)
  if ← afterLineBreak then nodeFrom start (.yieldExpression none false)
  else if ← accept (.punct .star) then
    nodeFrom start (.yieldExpression (some (← g .assignment)) true)
  else if (← current).beginsExpression then
    nodeFrom start (.yieldExpression (some (← g .assignment)) false)
  else nodeFrom start (.yieldExpression none false)

/-- The body of an arrow function: a block or an expression. -/
def arrowBody (g : Reading) : Parser Node := do
  if ← isAt (.punct .openBrace) then functionBody g else g .assignment

/-- An arrow function. -/
def arrowFunction (g : Reading) : Parser Node := do
  let start ← position
  let t ← current
  let isAsync := t.kind = .word .asyncKw && t.next.kind ≠ .punct .arrow
  if isAsync then advance
  let params ←
    if ← isAt (.punct .openParen) then parameters g else (fun p => [p]) <$> identifier
  if ← afterLineBreak then fail .lineBreakBeforeArrow
  expect (.punct .arrow)
  let body ← arrowBody g
  nodeFrom start (.arrowFunction params body isAsync)

/-- Whether an arrow function begins here. -/
def atArrowFunction : Parser Bool := fun s =>
  .ok (s.token.beginsArrowFunction (s.ahead + 1)) s

/-- An assignment, or what stands for one. -/
def assignment (g : Reading) : Parser Node := nested do
  if ← isAt (.word .yieldKw) then yieldExpression g
  else if ← atArrowFunction then arrowFunction g
  else
    let start ← position
    let left ← conditional g
    let op ← kind
    if op.isAssignment then
      let target := if op = .punct .assign then left.toTarget else left
      advance
      let right ← g .assignment
      nodeFrom start (.assignmentExpression op target right)
    else return left

end ModuleBundler.Grammar
