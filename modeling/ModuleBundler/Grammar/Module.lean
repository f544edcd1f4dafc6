import ModuleBundler.Grammar.Statement

/-!
# ModuleBundler — rules for modules

A module is a list of statements and of import and export declarations.

* `read` — how the phrases of the grammar are read, by way of each other. The
  rounds it is given are the tokens that are ahead: every rule takes a token
  before it comes to a phrase inside it.
* `Node.parse` — the tree of a module, or why there is none.
-/

namespace ModuleBundler.Grammar

-- ---------------------------------------------------------------------------
-- The grammar
-- ---------------------------------------------------------------------------

/-- The rules of the phrases, over a reading of the phrases inside them. -/
def rule (g : Reading) : Reading
  | .assignment => assignment g
  | .unary => unary g
  | .binary above => binary g above
  | .construction => construction g
  | .leftHandSide => leftHandSide g
  | .statement => statement g
  | .bindingTarget => bindingTarget g

/-- Reads a phrase in at most the given number of rounds, one for each phrase
inside another. -/
def read : Nat → Reading
  | 0, _ => exhausted
  | n + 1, phrase => rule (read n) phrase

-- ---------------------------------------------------------------------------
-- Import declarations
-- ---------------------------------------------------------------------------

/-- The source that follows `from`, and the end of the declaration. -/
def fromClause : Parser String := do
  expect (.word .fromKw)
  let source ← stringText
  endOfStatement
  return source

/-- A specifier from an offset to the last token taken. -/
def importSpecifierFrom (start : Nat) (imported localName : String) :
    Parser ImportSpecifier := fun s =>
  .ok ⟨imported, localName, ⟨start, s.lastStop⟩⟩ s

/-- A name of an import list. A local name may be left out where the imported
one can be the name of a binding. -/
def importSpecifier : Parser ImportSpecifier := do
  let start ← position
  let t ← current
  let imported ← exportName
  if ← accept (.word .asKw) then importSpecifierFrom start imported (← bindingName)
  else if t.isBindingName then importSpecifierFrom start imported imported
  else fail (.expected (.word .asKw))

/-- A list of imports, in braces. -/
def namedImports : Parser (List ImportSpecifier) := do
  expect (.punct .openBrace)
  let specifiers ← listUntil .closeBrace (.plain <$> importSpecifier)
  expect (.punct .closeBrace)
  return specifiers

/-- An import of a whole module. -/
def namespaceImport : Parser ImportSpecifier := do
  let start ← position
  advance
  expect (.word .asKw)
  importSpecifierFrom start "*" (← bindingName)

/-- The imports after the default one: a whole module or a list. -/
def furtherImports : Parser (List ImportSpecifier) := do
  match ← kind with
  | .punct .star => (fun s => [s]) <$> namespaceImport
  | .punct .openBrace => namedImports
  | _ => fail (.expected (.punct .openBrace))

/-- The names of an import declaration. -/
def importSpecifiers : Parser (List ImportSpecifier) := do
  if (← current).isBindingName then
    let start ← position
    let first ← importSpecifierFrom start "default" (← bindingName)
    if ← accept (.punct .comma) then return first :: (← furtherImports)
    else return [first]
  else furtherImports

/-- An import declaration. -/
def importDeclaration : Parser Node := do
  let start ← position
  expect (.word .importKw)
  if ← isAt .string then
    let source ← stringText
    endOfStatement
    nodeFrom start (.importDeclaration [] source)
  else
    let specifiers ← importSpecifiers
    let source ← fromClause
    nodeFrom start (.importDeclaration specifiers source)

-- ---------------------------------------------------------------------------
-- Export declarations
-- ---------------------------------------------------------------------------

/-- A name of an export list. -/
def exportSpecifier : Parser ExportSpecifier := do
  let start ← position
  let localName ← exportName
  let exported ← if ← accept (.word .asKw) then exportName else pure localName
  fun s => .ok ⟨localName, exported, ⟨start, s.lastStop⟩⟩ s

/-- An export list, with or without a source. -/
def exportList (start : Nat) : Parser Node := do
  expect (.punct .openBrace)
  let specifiers ← listUntil .closeBrace (.plain <$> exportSpecifier)
  expect (.punct .closeBrace)
  if ← isAt (.word .fromKw) then
    let source ← fromClause
    nodeFrom start (.exportNamed none specifiers (some source))
  else
    endOfStatement
    nodeFrom start (.exportNamed none specifiers none)

/-- An export of all that another module exports. -/
def exportAll (start : Nat) : Parser Node := do
  advance
  let exported ← if ← accept (.word .asKw) then some <$> exportName else pure none
  let source ← fromClause
  nodeFrom start (.exportAll exported source)

/-- What `export default` exports: a function or class, which may have no name,
or an expression. -/
def defaultValue (g : Reading) : Parser Node := do
  let t ← current
  match t.kind with
  | .word .functionKw => functionDeclaration g t.start.offset false false
  | .word .classKw => classDeclaration g false
  | _ =>
    if t.kind = .word .asyncKw && t.beginsAsyncFunction then
      advance
      functionDeclaration g t.start.offset true false
    else
      let e ← allowIn (g .assignment)
      endOfStatement
      return e

/-- An exported declaration. -/
def exportedDeclaration (g : Reading) (start : Nat) : Parser Node := do
  let declaration ← g .statement
  nodeFrom start (.exportNamed (some declaration) [] none)

/-- An export declaration. -/
def exportDeclaration (g : Reading) : Parser Node := do
  let start ← position
  expect (.word .exportKw)
  let t ← current
  match t.kind with
  | .punct .star => exportAll start
  | .punct .openBrace => exportList start
  | .word .defaultKw =>
    advance
    nodeFrom start (.exportDefault (← defaultValue g))
  | .word .varKw | .word .letKw | .word .constKw | .word .functionKw | .word .classKw =>
    exportedDeclaration g start
  | .word .asyncKw =>
    if t.beginsAsyncFunction then exportedDeclaration g start else fail .declarationExpected
  | _ => fail .declarationExpected

-- ---------------------------------------------------------------------------
-- Modules
-- ---------------------------------------------------------------------------

/-- An item of a module. -/
def moduleItem (g : Reading) : Parser Node := do
  let t ← current
  match t.kind with
  | .word .importKw => if t.beginsImportExpression then g .statement else importDeclaration
  | .word .exportKw => exportDeclaration g
  | _ => g .statement

/-- A module. It reaches over the whole text. -/
def program (g : Reading) : Parser Node := do
  advance
  let body ← many (· = .endOfFile) (moduleItem g)
  fun s => .ok (.mk ⟨0, s.size⟩ (.program body)) s

/-- Reads a module in at most the given number of rounds. -/
def readModule (n : Nat) (text : String) : Except Diagnostic Node :=
  match program (read n) (State.initial text) with
  | .ok tree _ => .ok tree
  | .error d _ => .error d

end ModuleBundler.Grammar

namespace ModuleBundler

/-- The tree of a module. A text has no more tokens than bytes, and so many
rounds are enough. -/
def Node.parse (text : String) : Except Grammar.Diagnostic Node :=
  Grammar.readModule (text.utf8ByteSize + 1) text

end ModuleBundler
