import ModuleBundler.Scope.Analysis
import ModuleBundler.Text.View

/-!
# ModuleBundler — statements of a module

A statement at the top level of a module is the unit that a bundle keeps or
drops. It is known by the number of its module and its position there, and comes
with its text and with the names it defines and depends on.

Import declarations define nothing here and depend on nothing: the names they
bind are looked up in the table of imports.

* `Statement.isDeclarationOnly` — statements that carry no code.
* `Statement.emittedText` — the text that a bundle gets.
-/

namespace ModuleBundler

namespace Node

/-- Whether a node is an import declaration. -/
def isImport (n : Node) : Bool :=
  match n.form with
  | .importDeclaration _ _ => true
  | _ => false

/-- Whether a node is an export declaration of any kind. -/
def isExport (n : Node) : Bool :=
  match n.form with
  | .exportNamed _ _ _ | .exportDefault _ | .exportAll _ _ => true
  | _ => false

/-- Whether a node exports names without declaring them. -/
def isExportList (n : Node) : Bool :=
  match n.form with
  | .exportNamed declaration _ _ => declaration.isNone
  | .exportAll _ _ => true
  | _ => false

/-- The name of a function or class declaration, if it has one. -/
def declaredName? (n : Node) : Option String :=
  match n.form with
  | .functionDeclaration f => f.name.bind identifierName?
  | .classDeclaration c => c.name.bind identifierName?
  | _ => none

/-- The pattern that a declarator declares. -/
def declaredPattern? (n : Node) : Option Node :=
  match n.form with
  | .variableDeclarator target _ => some target
  | _ => none

/-- The names that a declaration binds when it is exported as it is written. -/
def declarationNames (n : Node) : List String :=
  match n.form with
  | .variableDeclaration _ ds => (ds.filterMap declaredPattern?).flatMap boundNames
  | _ => n.declaredName?.toList

end Node

/-- A statement at the top level of a module: the number of the module, its position
there, its node, its text and its analysis. Its span, its kind and whether it is an import or
an export are those of its node, and of its scopes only the root is kept. Numbers and positions
are natural numbers of any size; they stand for numbers of 32 bits. -/
structure Statement where
  moduleId : Nat
  index : Nat
  node : Node
  view : Text.View
  analysis : Analysis
  deriving Inhabited

namespace Statement

/-- The statement of a node of a text. -/
def ofNode (moduleId : Nat) (text : Text.View) (index : Nat) (node : Node) : Statement where
  moduleId := moduleId
  index := index
  node := node
  view := text.snip node.span.start node.span.stop
  analysis := if node.isImport then .none else node.analyse

/-- The names that a statement defines, in order. -/
def defines (s : Statement) : List String := s.analysis.defines.toList

/-- The names that a statement depends on, in order. -/
def dependsOn (s : Statement) : List String := s.analysis.dependsOn.toList

/-- Whether a statement carries no code of its own: imports and export lists. -/
def isDeclarationOnly (s : Statement) : Bool := s.node.isImport || s.node.isExportList

/-- The declaration inside an export that keeps its meaning when the words in
front of it are dropped. A default export has one if it declares a name. -/
def exportedDeclaration? (s : Statement) : Option Node :=
  match s.node.form with
  | .exportNamed declaration _ _ => declaration
  | .exportDefault declaration => if declaration.declaredName?.isSome then declaration else none
  | _ => none

/-- The text of a statement in a bundle: an exported declaration stands without
the words that export it. -/
def emittedText (s : Statement) : String :=
  match s.exportedDeclaration? with
  | some declaration => (s.view.remove s.node.span.start declaration.span.start).toText
  | none => s.view.toText

end Statement

/-- The top-level statements of a tree, in the module of a number. -/
def Node.statements (program : Node) (text : String) (moduleId : Nat := 0) : List Statement :=
  match program.form with
  | .program body => body.mapIdx (Statement.ofNode moduleId (.whole text))
  | _ => []

end ModuleBundler
