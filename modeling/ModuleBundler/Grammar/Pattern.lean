import ModuleBundler.Grammar.Parser

/-!
# ModuleBundler — rules for keys, patterns and parameters

What a declaration or a parameter binds: a name, or an object or array pattern
of such, with defaults. Rules are written over a reading `g` of the phrases
inside them.
-/

namespace ModuleBundler.Grammar

/-- Expressions with commas between them; a lone one stands for itself. -/
def sequence (operand : Parser Node) : Parser Node := do
  let start ← position
  match ← separated operand with
  | [e] => return e
  | es => nodeFrom start (.sequenceExpression es)

/-- An expression inside a larger phrase. -/
def expression (g : Reading) : Parser Node := sequence (g .assignment)

/-- The key of a property or class member. -/
def propertyKey (g : Reading) : Parser (PropertyKey Node) := do
  match ← kind with
  | .string | .number | .bigInt => return .named (← takeValue)
  | .privateName => return .privateName (← takeValue)
  | .punct .openBracket =>
    advance
    let e ← allowIn (g .assignment)
    expect (.punct .closeBracket)
    return .computed e
  | _ => return .named (← anyName)

/-- What a pattern may be followed by: an equals sign and a default. -/
def withDefault (start : Nat) (target : Node) (value : Parser Node) : Parser Node := do
  if ← accept (.punct .assign) then
    nodeFrom start (.assignmentPattern target (← value))
  else return target

/-- A pattern with an optional default. -/
def bindingElement (g : Reading) : Parser Node := do
  let start ← position
  let target ← g .bindingTarget
  withDefault start target (allowIn (g .assignment))

/-- Three dots and the pattern that takes what is left. -/
def restElement (g : Reading) : Parser Node := do
  let start ← position
  expect (.punct .ellipsis)
  nodeFrom start (.restElement (← g .bindingTarget))

/-- A property of an object pattern: a key and a pattern, or a name that is
both. -/
def patternProperty (g : Reading) : Parser Node := do
  let start ← position
  let first ← current
  let key ← propertyKey g
  if ← accept (.punct .colon) then
    let value ← bindingElement g
    nodeFrom start (.property key value .init false)
  else if first.isBindingName then
    let name ← nodeFrom start (.identifier first.value)
    let value ← withDefault start name (allowIn (g .assignment))
    nodeFrom start (.property key value .init true)
  else fail (.expected (.punct .colon))

/-- An object pattern. -/
def objectPattern (g : Reading) : Parser Node := do
  let start ← position
  expect (.punct .openBrace)
  let properties ← listUntil .closeBrace do
    if ← isAt (.punct .ellipsis) then return .last (← restElement g)
    else return .plain (← patternProperty g)
  expect (.punct .closeBrace)
  nodeFrom start (.objectPattern properties)

/-- An array pattern. A comma where an element could begin leaves a hole. -/
def arrayPattern (g : Reading) : Parser Node := do
  let start ← position
  expect (.punct .openBracket)
  let elements ← listUntil .closeBracket do
    if ← accept (.punct .comma) then return .whole none
    else if ← isAt (.punct .ellipsis) then return .last (some (← restElement g))
    else return .plain (some (← bindingElement g))
  expect (.punct .closeBracket)
  nodeFrom start (.arrayPattern elements)

/-- What is bound: a name or a pattern. -/
def bindingTarget (g : Reading) : Parser Node := nested do
  match ← kind with
  | .punct .openBrace => objectPattern g
  | .punct .openBracket => arrayPattern g
  | _ => identifier

/-- The parameters of a function, in parentheses. -/
def parameters (g : Reading) : Parser (List Node) := do
  expect (.punct .openParen)
  let params ← allowIn <| listUntil .closeParen do
    if ← isAt (.punct .ellipsis) then return .last (← restElement g)
    else return .plain (← bindingElement g)
  expect (.punct .closeParen)
  return params

end ModuleBundler.Grammar
