import ModuleBundler.Scope.Table
import ModuleBundler.Tree.Pattern
import ModuleBundler.Tree.Traversal

/-!
# ModuleBundler — what a statement defines and depends on

Two traversals. The first opens the scopes of a statement and binds the declared
names in them; those that land in the root scope are what the statement defines.
The second passes the same scopes again, now that they hold the names declared
later too; the identifiers that no scope around them binds are what the
statement depends on.

Both traversals meet the nodes that open scopes in one order, so the scope of
such a node is known by counting, and no table from nodes to their scopes is kept.

* `Node.opensScope?`, `Node.declares` — the scoping rules of single nodes.
* `Node.analyse` — the two traversals.
-/

namespace ModuleBundler

-- ---------------------------------------------------------------------------
-- Scoping rules
-- ---------------------------------------------------------------------------

/-- A scope that a node opens: whether it is a block scope, and the names that
it binds from the beginning. -/
structure ScopeOpening where
  isBlock : Bool
  names : List String
  deriving Repr, DecidableEq

/-- Declarations into the scope around a node. -/
structure Declarations where
  isBlockScoped : Bool
  names : List String
  deriving Repr, DecidableEq

namespace Node

/-- The names that parameters bind. -/
def parameterNames (params : List Node) : List String := params.flatMap boundNames

/-- The name of a function or class, if it has one. -/
def ownName (name : Option Node) : List String := (name.bind identifierName?).toList

/-- The scope that a node opens. Functions open one that is no block scope, with
their parameters in it, and in an expression with their own name. Blocks, loops,
switches, handlers and classes with a name in an expression open block scopes. -/
def opensScope? (n : Node) : Option ScopeOpening :=
  match n.form with
  | .functionDeclaration f => some ⟨false, parameterNames f.params⟩
  | .functionExpression f => some ⟨false, ownName f.name ++ parameterNames f.params⟩
  | .arrowFunction params _ _ => some ⟨false, parameterNames params⟩
  | .classExpression c =>
    match ownName c.name with
    | [] => none
    | names => some ⟨true, names⟩
  | .catchClause param _ => some ⟨true, param.elim [] boundNames⟩
  | .blockStatement _ | .staticBlock _ | .switchStatement _ _ => some ⟨true, []⟩
  | .forStatement _ _ _ _ | .forInStatement _ _ _ | .forOfStatement _ _ _ _ => some ⟨true, []⟩
  | _ => none

/-- The names that a declarator binds. -/
def declaratorNames (n : Node) : List String :=
  match n.form with
  | .variableDeclarator target _ => target.boundNames
  | _ => []

/-- What a node declares in the scope around it. -/
def declares (n : Node) : Declarations :=
  match n.form with
  | .functionDeclaration f => ⟨false, ownName f.name⟩
  | .classDeclaration c => ⟨false, ownName c.name⟩
  | .variableDeclaration kind ds => ⟨kind.isBlockScoped, ds.flatMap declaratorNames⟩
  | _ => ⟨false, []⟩

end Node

-- ---------------------------------------------------------------------------
-- Binding names
-- ---------------------------------------------------------------------------

/-- The state of the first traversal: the scopes, the current one, and the names
that landed in the root scope. -/
structure Binding where
  scopes : ScopeTable
  current : Nat
  defines : NameSet
  deriving Inhabited

namespace Binding

/-- Before the first traversal. -/
def initial : Binding := ⟨.initial, ScopeTable.rootId, .empty⟩

/-- Declares a name in the current scope. -/
def declare (b : Binding) (isBlockScoped : Bool) (name : String) : Binding :=
  let landing := b.scopes.landing b.current isBlockScoped
  { b with
    scopes := b.scopes.bind landing name
    defines := if landing = ScopeTable.rootId then b.defines.insert name else b.defines }

/-- Opens a scope under the current one, which it becomes. -/
def openScope (b : Binding) (opening : ScopeOpening) : Binding :=
  let scopes := b.scopes.push b.current opening.isBlock
  let id := b.scopes.size
  { b with
    scopes := opening.names.foldl (fun t name => t.bind id name) scopes
    current := id }

/-- Returns to the scope around the current one. -/
def closeScope (b : Binding) : Binding :=
  { b with current := (b.scopes.parent? b.current).getD ScopeTable.rootId }

/-- One event of the first traversal. -/
def visit (b : Binding) : Event → Binding
  | .enter n _ =>
    let declarations := n.declares
    let b := declarations.names.foldl (declare · declarations.isBlockScoped) b
    match n.opensScope? with
    | some opening => b.openScope opening
    | none => b
  | .leave n _ => if n.opensScope?.isSome then b.closeScope else b

end Binding

-- ---------------------------------------------------------------------------
-- Collecting references
-- ---------------------------------------------------------------------------

/-- The state of the second traversal: the current scope, how many scopes were
passed, and the names that no scope binds. -/
structure References where
  current : Nat
  passed : Nat
  dependsOn : NameSet
  deriving Inhabited

namespace References

/-- Before the second traversal, the root scope is passed. -/
def initial : References := ⟨ScopeTable.rootId, 1, .empty⟩

/-- One event of the second traversal. -/
def visit (scopes : ScopeTable) (r : References) : Event → References
  | .enter n _ =>
    let r :=
      if n.opensScope?.isSome then { r with current := r.passed, passed := r.passed + 1 } else r
    match n.identifierName? with
    | some name =>
      if scopes.contains r.current name then r
      else { r with dependsOn := r.dependsOn.insert name }
    | none => r
  | .leave n _ =>
    if n.opensScope?.isSome then
      { r with current := (scopes.parent? r.current).getD ScopeTable.rootId }
    else r

end References

/-- What the analysis of a statement yields: its root scope, the names it defines
and the names it depends on. -/
structure Analysis where
  root : Scope
  defines : NameSet
  dependsOn : NameSet
  deriving Inhabited

/-- Nothing defined, nothing depended on. -/
def Analysis.none : Analysis := ⟨.root, .empty, .empty⟩

/-- Analyses a statement. -/
def Node.analyse (n : Node) : Analysis :=
  let binding := n.walk Binding.visit .initial
  let references := n.walk (References.visit binding.scopes) .initial
  ⟨binding.scopes.root, binding.defines, references.dependsOn⟩

end ModuleBundler
