import ModuleBundler.Grammar.Function

/-!
# ModuleBundler — rules for primary expressions

Literals, names, templates, array and object literals, and expressions in
parentheses.
-/

namespace ModuleBundler.Grammar

-- ---------------------------------------------------------------------------
-- Literals and templates
-- ---------------------------------------------------------------------------

/-- The current token as a literal. -/
def literal (make : String → Literal) : Parser Node := do
  let start ← position
  let value ← takeValue
  nodeFrom start (.literal (make value))

/-- The current token as a form without parts. -/
def word (form : Form Node) : Parser Node := do
  let start ← position
  advance
  nodeFrom start form

/-- A regular expression, which begins at a slash. -/
def regex : Parser Node := do
  reread Token.asRegex
  if ← isAt .regex then literal .regex else fail .expressionExpected

/-- The substitutions of a template and the pieces of text after each, from the
head on. The token that ends the template is not taken. -/
def substitutions (g : Reading) :
    Nat → List String → List Node → Parser (List String × List Node)
  | 0, _, _ => exhausted
  | n + 1, quasis, expressions => do
    advance
    let e ← allowIn (expression g)
    if !(← isAt (.punct .closeBrace)) then fail (.expected (.punct .closeBrace))
    reread Token.asTemplate
    let piece ← current
    match piece.kind with
    | .templateMiddle => substitutions g n (piece.value :: quasis) (e :: expressions)
    | .templateTail => return ((piece.value :: quasis).reverse, (e :: expressions).reverse)
    | _ => fail .unclosedTemplate

/-- A template. -/
def templateLiteral (g : Reading) : Parser Node := do
  let start ← position
  let first ← current
  let (quasis, expressions) ←
    if first.kind = .templateHead then substitutions g (← rounds) [first.value] []
    else pure ([first.value], [])
  advance
  nodeFrom start (.templateLiteral quasis expressions)

-- ---------------------------------------------------------------------------
-- Groups
-- ---------------------------------------------------------------------------

/-- An expression in parentheses. -/
def inParentheses (g : Reading) : Parser Node := do
  expect (.punct .openParen)
  let e ← allowIn (expression g)
  expect (.punct .closeParen)
  return e

/-- An expression in parentheses, as a node. -/
def parenthesized (g : Reading) : Parser Node := do
  let start ← position
  nodeFrom start (.parenthesizedExpression (← inParentheses g))

/-- An expression that may be spread. -/
def spreadable (g : Reading) : Parser Node := do
  let start ← position
  if ← accept (.punct .ellipsis) then
    nodeFrom start (.spreadElement (← g .assignment))
  else g .assignment

/-- An array literal. A comma where an element could begin leaves a hole. -/
def arrayLiteral (g : Reading) : Parser Node := do
  let start ← position
  expect (.punct .openBracket)
  let elements ← listUntil .closeBracket do
    if ← accept (.punct .comma) then return .whole none
    else return .plain (some (← allowIn (spreadable g)))
  expect (.punct .closeBracket)
  nodeFrom start (.arrayExpression elements)

/-- The arguments of a call, in parentheses. -/
def arguments (g : Reading) : Parser (List Node) := do
  expect (.punct .openParen)
  let values ← listUntil .closeParen (.plain <$> allowIn (spreadable g))
  expect (.punct .closeParen)
  return values

-- ---------------------------------------------------------------------------
-- Object literals
-- ---------------------------------------------------------------------------

/-- A property of an object literal from its key on: a method, a key and a
value, or a name that is both. A name may have a default, for the sake of
literals that turn out to be patterns. -/
def propertyAfter (g : Reading) (start : Nat) (head : MemberHead) : Parser Node := do
  let keyStart ← position
  let first ← current
  let key ← propertyKey g
  if ← isAt (.punct .openParen) then
    let value ← methodFunction g head.isAsync head.isGenerator
    let kind := if head.kind = .init then .method else head.kind
    nodeFrom start (.property key value kind false)
  else if head.isMethod then fail (.expected (.punct .openParen))
  else if ← accept (.punct .colon) then
    let value ← g .assignment
    nodeFrom start (.property key value .init false)
  else if first.isBindingName then
    let name ← nodeFrom keyStart (.identifier first.value)
    let value ← withDefault keyStart name (g .assignment)
    nodeFrom start (.property key value .init true)
  else fail (.expected (.punct .colon))

/-- A property of an object literal, or a spread. -/
def objectProperty (g : Reading) : Parser Node := do
  let start ← position
  if ← accept (.punct .ellipsis) then
    nodeFrom start (.spreadElement (← g .assignment))
  else
    let head ← memberHead
    propertyAfter g start head

/-- An object literal. -/
def objectLiteral (g : Reading) : Parser Node := do
  let start ← position
  expect (.punct .openBrace)
  let properties ← listUntil .closeBrace (.plain <$> allowIn (objectProperty g))
  expect (.punct .closeBrace)
  nodeFrom start (.objectExpression properties)

-- ---------------------------------------------------------------------------
-- Primary expressions
-- ---------------------------------------------------------------------------

/-- A primary expression. -/
def primary (g : Reading) : Parser Node := do
  let t ← current
  let start ← position
  match t.kind with
  | .word .thisKw => word .thisExpression
  | .word .trueKw => word (.literal (.boolean true))
  | .word .falseKw => word (.literal (.boolean false))
  | .word .nullKw => word (.literal .null)
  | .number => literal .number
  | .bigInt => literal .bigInt
  | .string => literal .string
  | .privateName => word (.privateName t.value)
  | .punct .slash | .punct .slashAssign => regex
  | .templateWhole | .templateHead => templateLiteral g
  | .punct .openParen => parenthesized g
  | .punct .openBracket => arrayLiteral g
  | .punct .openBrace => objectLiteral g
  | .word .functionKw => functionExpression g start false
  | .word .classKw => classExpression g
  | .word .asyncKw =>
    if t.beginsAsyncFunction then
      advance
      functionExpression g start true
    else identifier
  | _ => if t.isBindingName then identifier else fail .expressionExpected

end ModuleBundler.Grammar
