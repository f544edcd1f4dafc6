import ModuleBundler.Grammar.Expression

/-!
# ModuleBundler — rules for statements

Every statement counts as a nesting. Import and export declarations are no
statements: they stand at the top level of a module only.
-/

namespace ModuleBundler.Grammar

-- ---------------------------------------------------------------------------
-- Variables and expressions
-- ---------------------------------------------------------------------------

/-- The word that begins a variable declaration. -/
def variableKind? : TokenKind → Option VariableKind
  | .word .varKw => some .varDecl
  | .word .letKw => some .letDecl
  | .word .constKw => some .constDecl
  | _ => none

/-- A variable and its value, if it has one. -/
def declarator (g : Reading) : Parser Node := do
  let start ← position
  let target ← g .bindingTarget
  let value ← if ← accept (.punct .assign) then some <$> g .assignment else pure none
  nodeFrom start (.variableDeclarator target value)

/-- A variable declaration without its end. -/
def variableDeclaration (g : Reading) : Parser Node := do
  let start ← position
  match variableKind? (← kind) with
  | none => fail .variableExpected
  | some kind =>
    advance
    let declarators ← separated (declarator g)
    nodeFrom start (.variableDeclaration kind declarators)

/-- A variable declaration as a statement. It reaches over its semicolon. -/
def variableStatement (g : Reading) : Parser Node := do
  let declaration ← allowIn (variableDeclaration g)
  endOfStatement
  nodeFrom declaration.span.start declaration.form

/-- An expression as a statement. -/
def expressionStatement (g : Reading) : Parser Node := do
  let start ← position
  let e ← allowIn (sequence (assignment g))
  endOfStatement
  nodeFrom start (.expressionStatement e)

-- ---------------------------------------------------------------------------
-- Branches and loops
-- ---------------------------------------------------------------------------

/-- A conditional statement. -/
def ifStatement (g : Reading) : Parser Node := do
  let start ← position
  expect (.word .ifKw)
  let test ← inParentheses g
  let consequent ← g .statement
  let alternate ← if ← accept (.word .elseKw) then some <$> g .statement else pure none
  nodeFrom start (.ifStatement test consequent alternate)

/-- A loop with its condition in front. -/
def whileStatement (g : Reading) : Parser Node := do
  let start ← position
  expect (.word .whileKw)
  let test ← inParentheses g
  let body ← g .statement
  nodeFrom start (.whileStatement test body)

/-- A loop with its condition at the end. Its semicolon may always be left out. -/
def doStatement (g : Reading) : Parser Node := do
  let start ← position
  expect (.word .doKw)
  let body ← g .statement
  expect (.word .whileKw)
  let test ← inParentheses g
  let _ ← accept (.punct .semicolon)
  nodeFrom start (.doWhileStatement body test)

/-- The first clause of a `for` head, in which `in` is no operator. -/
def forFirst (g : Reading) : Parser (Option Node) := do
  let t ← current
  match t.kind with
  | .punct .semicolon => return none
  | .word .varKw | .word .constKw => some <$> withIn true (variableDeclaration g)
  | .word .letKw =>
    if t.beginsLetDeclaration then some <$> withIn true (variableDeclaration g)
    else some <$> withIn true (expression g)
  | _ => some <$> withIn true (expression g)

/-- An expression before a token, or nothing. -/
def clauseBefore (g : Reading) (ending : Punctuator) : Parser (Option Node) := do
  let clause ← if ← isAt (.punct ending) then pure none else some <$> allowIn (expression g)
  expect (.punct ending)
  return clause

/-- A `for` loop over three clauses, after the first one. -/
def forClauses (g : Reading) (start : Nat) (first : Option Node) : Parser Node := do
  expect (.punct .semicolon)
  let test ← clauseBefore g .semicolon
  let update ← clauseBefore g .closeParen
  let body ← g .statement
  nodeFrom start (.forStatement first test update body)

/-- A `for` loop over the values of an object, after what they are stored in. -/
def forOf (g : Reading) (start : Nat) (isAwait : Bool) (left : Node) : Parser Node := do
  advance
  let right ← allowIn (g .assignment)
  expect (.punct .closeParen)
  let body ← g .statement
  nodeFrom start (.forOfStatement left.toTarget right body isAwait)

/-- A `for` loop over the keys of an object, after what they are stored in. -/
def forIn (g : Reading) (start : Nat) (left : Node) : Parser Node := do
  advance
  let right ← allowIn (expression g)
  expect (.punct .closeParen)
  let body ← g .statement
  nodeFrom start (.forInStatement left.toTarget right body)

/-- A `for` loop. -/
def forStatement (g : Reading) : Parser Node := do
  let start ← position
  expect (.word .forKw)
  let isAwait ← accept (.word .awaitKw)
  expect (.punct .openParen)
  let first ← forFirst g
  match ← kind, first with
  | .word .ofKw, some left => forOf g start isAwait left
  | .word .inKw, some left => forIn g start left
  | _, _ => forClauses g start first

-- ---------------------------------------------------------------------------
-- Jumps
-- ---------------------------------------------------------------------------

/-- A return, with a value if one begins on its line. -/
def returnStatement (g : Reading) : Parser Node := do
  let start ← position
  expect (.word .returnKw)
  let t ← current
  let argument ←
    if t.endsStatement || t.kind = .punct .semicolon then pure none
    else some <$> allowIn (expression g)
  endOfStatement
  nodeFrom start (.returnStatement argument)

/-- A `break` or `continue`, with a label if one is on its line. -/
def jumpStatement (make : Option String → Form Node) : Parser Node := do
  let start ← position
  advance
  let t ← current
  let label ←
    if t.isBindingName && !t.afterLineBreak then some <$> takeValue else pure none
  endOfStatement
  nodeFrom start (make label)

/-- A `throw`. Its value begins on its line. -/
def throwStatement (g : Reading) : Parser Node := do
  let start ← position
  expect (.word .throwKw)
  if ← afterLineBreak then fail .lineBreakAfterThrow
  let argument ← allowIn (expression g)
  endOfStatement
  nodeFrom start (.throwStatement argument)

-- ---------------------------------------------------------------------------
-- Blocks with handlers, and switches
-- ---------------------------------------------------------------------------

/-- A handler and what it binds. -/
def catchClause (g : Reading) : Parser Node := do
  let start ← position
  advance
  let param ←
    if ← accept (.punct .openParen) then do
      let target ← g .bindingTarget
      expect (.punct .closeParen)
      pure (some target)
    else pure none
  let body ← block g
  nodeFrom start (.catchClause param body)

/-- A block with a handler, a finalizer or both. -/
def tryStatement (g : Reading) : Parser Node := do
  let start ← position
  expect (.word .tryKw)
  let body ← block g
  let handler ← if ← isAt (.word .catchKw) then some <$> catchClause g else pure none
  let finalizer ← if ← accept (.word .finallyKw) then some <$> block g else pure none
  if handler.isNone && finalizer.isNone then fail .handlerExpected
  nodeFrom start (.tryStatement body handler finalizer)

/-- Whether the statements of a case end before a token. -/
def endsCase : TokenKind → Bool
  | .word .caseKw | .word .defaultKw | .punct .closeBrace | .endOfFile => true
  | _ => false

/-- What a case is chosen by; nothing for the default one. -/
def caseTest (g : Reading) : Parser (Option Node) := do
  match ← kind with
  | .word .caseKw =>
    advance
    some <$> allowIn (expression g)
  | .word .defaultKw =>
    advance
    return none
  | _ => fail .caseExpected

/-- A case of a switch. -/
def switchCase (g : Reading) : Parser Node := do
  let start ← position
  let test ← caseTest g
  expect (.punct .colon)
  let consequent ← many endsCase (g .statement)
  nodeFrom start (.switchCase test consequent)

/-- A switch. -/
def switchStatement (g : Reading) : Parser Node := do
  let start ← position
  expect (.word .switchKw)
  let discriminant ← inParentheses g
  expect (.punct .openBrace)
  let cases ← many (· = .punct .closeBrace) (switchCase g)
  expect (.punct .closeBrace)
  nodeFrom start (.switchStatement discriminant cases)

-- ---------------------------------------------------------------------------
-- All statements
-- ---------------------------------------------------------------------------

/-- A statement over the members of an object. -/
def withStatement (g : Reading) : Parser Node := do
  let start ← position
  expect (.word .withKw)
  let object ← inParentheses g
  let body ← g .statement
  nodeFrom start (.withStatement object body)

/-- A statement with a label. -/
def labeledStatement (g : Reading) : Parser Node := do
  let start ← position
  let label ← bindingName
  expect (.punct .colon)
  let body ← g .statement
  nodeFrom start (.labeledStatement label body)

/-- A stop for a debugger. -/
def debuggerStatement : Parser Node := do
  let start ← position
  advance
  endOfStatement
  nodeFrom start .debuggerStatement

/-- A statement that begins with an expression or a label. -/
def otherStatement (g : Reading) (t : Token) : Parser Node :=
  if t.isBindingName && t.beginsLabel then labeledStatement g else expressionStatement g

/-- A statement. -/
def statement (g : Reading) : Parser Node := nested do
  let t ← current
  match t.kind with
  | .punct .openBrace => block g
  | .punct .semicolon => word .emptyStatement
  | .word .varKw | .word .constKw => variableStatement g
  | .word .letKw => if t.beginsLetDeclaration then variableStatement g else otherStatement g t
  | .word .functionKw => functionDeclaration g t.start.offset false true
  | .word .asyncKw =>
    if t.beginsAsyncFunction then
      advance
      functionDeclaration g t.start.offset true true
    else otherStatement g t
  | .word .classKw => classDeclaration g true
  | .word .ifKw => ifStatement g
  | .word .forKw => forStatement g
  | .word .whileKw => whileStatement g
  | .word .doKw => doStatement g
  | .word .returnKw => returnStatement g
  | .word .breakKw => jumpStatement .breakStatement
  | .word .continueKw => jumpStatement .continueStatement
  | .word .throwKw => throwStatement g
  | .word .tryKw => tryStatement g
  | .word .switchKw => switchStatement g
  | .word .withKw => withStatement g
  | .word .debuggerKw => debuggerStatement
  | .word .importKw => if t.beginsImportExpression then otherStatement g t else fail .nestedImport
  | .word .exportKw => fail .nestedExport
  | _ => otherStatement g t

end ModuleBundler.Grammar
