import ModuleBundler.Grammar.Pattern

/-!
# ModuleBundler — rules for functions and classes

Bodies of functions and of classes count as nestings of their own, and `in` is
an operator in them whatever surrounds them.
-/

namespace ModuleBundler.Grammar

-- ---------------------------------------------------------------------------
-- Functions
-- ---------------------------------------------------------------------------

/-- Statements in braces. -/
def bracedStatements (g : Reading) : Parser (List Node) := do
  expect (.punct .openBrace)
  let body ← many (· = .punct .closeBrace) do
    if ← isAt .endOfFile then fail (.expected (.punct .closeBrace)) else g .statement
  expect (.punct .closeBrace)
  return body

/-- A block. -/
def block (g : Reading) : Parser Node := do
  let start ← position
  nodeFrom start (.blockStatement (← bracedStatements g))

/-- The body of a function. -/
def functionBody (g : Reading) : Parser Node := nested (allowIn (block g))

/-- The name of a function or class, which may be required. -/
def optionalName (isRequired : Bool) : Parser (Option Node) := do
  if (← current).isBindingName then return some (← identifier)
  else if isRequired then fail .identifierExpected
  else return none

/-- A function from the word `function` on. -/
def functionParts (g : Reading) (isAsync nameRequired : Bool) : Parser (FunctionParts Node) := do
  expect (.word .functionKw)
  let isGenerator ← accept (.punct .star)
  let name ← optionalName nameRequired
  let params ← parameters g
  let body ← functionBody g
  return ⟨name, params, body, isAsync, isGenerator⟩

/-- A function declaration. The word `async`, if any, is taken. -/
def functionDeclaration (g : Reading) (start : Nat) (isAsync nameRequired : Bool) :
    Parser Node := do
  nodeFrom start (.functionDeclaration (← functionParts g isAsync nameRequired))

/-- A function expression. The word `async`, if any, is taken. -/
def functionExpression (g : Reading) (start : Nat) (isAsync : Bool) : Parser Node := do
  nodeFrom start (.functionExpression (← functionParts g isAsync false))

/-- A method from its parameters on, as a function without a name. -/
def methodFunction (g : Reading) (isAsync isGenerator : Bool) : Parser Node := do
  let start ← position
  let params ← parameters g
  let body ← functionBody g
  nodeFrom start (.functionExpression ⟨none, params, body, isAsync, isGenerator⟩)

-- ---------------------------------------------------------------------------
-- Members of objects and classes
-- ---------------------------------------------------------------------------

/-- Takes a word that qualifies the member after it, and tells whether it was
there. -/
def qualifier (word : Keyword) : Parser Bool := do
  let t ← current
  if t.kind = .word word && t.qualifiesMember then
    advance
    return true
  else return false

/-- Takes `get` or `set` where it introduces an accessor. -/
def accessorKind : Parser PropertyKind := do
  let t ← current
  if t.kind = .word .getKw && t.qualifiesAccessor then
    advance
    return .getter
  else if t.kind = .word .setKw && t.qualifiesAccessor then
    advance
    return .setter
  else return .init

/-- What stands before the key of a member. -/
structure MemberHead where
  isAsync : Bool
  isGenerator : Bool
  kind : PropertyKind

/-- Whether only a method may follow. -/
def MemberHead.isMethod (h : MemberHead) : Bool :=
  h.isAsync || h.isGenerator || h.kind ≠ .init

/-- Takes what stands before the key of a member. -/
def memberHead : Parser MemberHead := do
  let isAsync ← qualifier .asyncKw
  let isGenerator ← accept (.punct .star)
  let kind ← if isAsync || isGenerator then pure .method else accessorKind
  return ⟨isAsync, isGenerator, kind⟩

-- ---------------------------------------------------------------------------
-- Classes
-- ---------------------------------------------------------------------------

/-- The kind of a method of a class. -/
def methodKind (head : MemberHead) (key : PropertyKey Node) (isStatic : Bool) : MethodKind :=
  match head.kind, key with
  | .getter, _ => .getter
  | .setter, _ => .setter
  | _, .named "constructor" =>
    if isStatic || head.isAsync || head.isGenerator then .method else .constructor
  | _, _ => .method

/-- A method or field, after the word `static`. -/
def methodOrField (g : Reading) (start : Nat) (isStatic : Bool) : Parser Node := do
  let head ← memberHead
  let key ← propertyKey g
  if ← isAt (.punct .openParen) then
    let value ← methodFunction g head.isAsync head.isGenerator
    nodeFrom start (.methodDefinition key value (methodKind head key isStatic) isStatic)
  else if head.isMethod then fail (.expected (.punct .openParen))
  else
    let value ← if ← accept (.punct .assign) then some <$> g .assignment else pure none
    endOfStatement
    nodeFrom start (.propertyDefinition key value isStatic)

/-- A static block, a method or a field. -/
def classMember (g : Reading) : Parser Node := do
  let t ← current
  let start ← position
  if t.kind = .word .staticKw && t.next.kind = .punct .openBrace then
    advance
    nodeFrom start (.staticBlock (← bracedStatements g))
  else
    let isStatic ← qualifier .staticKw
    methodOrField g start isStatic

/-- The members of a class, in braces. Semicolons may stand between them. -/
def classBody (g : Reading) : Parser (List Node) := do
  expect (.punct .openBrace)
  let members ← many (· = .punct .closeBrace) do
    if ← accept (.punct .semicolon) then return none
    else if ← isAt .endOfFile then fail (.expected (.punct .closeBrace))
    else return some (← classMember g)
  expect (.punct .closeBrace)
  return members.filterMap id

/-- A class from the word `class` on. -/
def classParts (g : Reading) (nameRequired : Bool) : Parser (ClassParts Node) := do
  expect (.word .classKw)
  let name ← optionalName nameRequired
  let superClass ←
    if ← accept (.word .extendsKw) then some <$> g .leftHandSide else pure none
  let members ← nested (allowIn (classBody g))
  return ⟨name, superClass, members⟩

/-- A class declaration. -/
def classDeclaration (g : Reading) (nameRequired : Bool) : Parser Node := do
  let start ← position
  nodeFrom start (.classDeclaration (← classParts g nameRequired))

/-- A class expression. -/
def classExpression (g : Reading) : Parser Node := do
  let start ← position
  nodeFrom start (.classExpression (← classParts g false))

end ModuleBundler.Grammar
