import ModuleBundler.Grammar.Module
import ModuleBundler.Module.Error
import ModuleBundler.Module.NameTable
import ModuleBundler.Module.Statement

/-!
# ModuleBundler — modules

A module is a path, its statements, and what its import and export declarations
say about names.

* `Bindings` — the tables of a module: where imported names come from, what
  exported names stand for, and which statement defines a name.
* `Bindings.ofStatements` — how the tables come about: the imports first, which
  must bind distinct names, then the exports, then the definitions.
* `Module.read` — the module of a text.
-/

namespace ModuleBundler

-- ---------------------------------------------------------------------------
-- Tables
-- ---------------------------------------------------------------------------

/-- Where an imported name comes from: a source as it is written, and the name
exported there, which is `default` for a default import and `*` for a whole
module. -/
structure ImportBinding where
  source : String
  name : String
  deriving DecidableEq, Repr, Inhabited

/-- What an exported name leads to. -/
inductive ExportTarget where
  /-- A name of this module, and the statement if the export declares it. -/
  | here (statement : Option Nat)
  /-- A name exported by another module. -/
  | reexport (source name : String)
  /-- A whole module. -/
  | wholeModule (source : String)
  deriving DecidableEq, Repr, Inhabited

/-- What an exported name stands for. -/
structure ExportBinding where
  localName : String
  target : ExportTarget
  deriving DecidableEq, Repr, Inhabited

/-- The tables of a module. A definition is the position of a statement, the last
one that defines the name. -/
structure Bindings where
  imports : NameTable ImportBinding
  exports : NameTable ExportBinding
  starExports : List String
  definitions : NameTable Nat
  deriving Inhabited

namespace Bindings

/-- Nothing imported, exported or defined. -/
def empty : Bindings := ⟨.empty, .empty, [], .empty⟩

/-- Adds an imported name. The names that a module imports are distinct. -/
def addImport (path : Path) (source : String) (b : Bindings) (s : ImportSpecifier) :
    Except BuildError Bindings :=
  if b.imports.contains s.localName then .error (.duplicateBinding path s.localName)
  else .ok { b with imports := b.imports.insert s.localName ⟨source, s.imported⟩ }

/-- Adds the names that a statement imports. -/
def addImports (path : Path) (b : Bindings) (s : Statement) : Except BuildError Bindings :=
  match s.node.form with
  | .importDeclaration specifiers source => specifiers.foldlM (addImport path source) b
  | _ => .ok b

/-- Exports a name. -/
def addExport (b : Bindings) (exported localName : String) (target : ExportTarget) : Bindings :=
  { b with exports := b.exports.insert exported ⟨localName, target⟩ }

/-- Makes a statement the definition of a name. -/
def define (statement : Nat) (b : Bindings) (name : String) : Bindings :=
  { b with definitions := b.definitions.insert name statement }

/-- Exports a name that is declared along with the export. -/
def exportDeclared (statement : Nat) (b : Bindings) (name : String) : Bindings :=
  b.addExport name name (.here (some statement))

/-- Exports a name of an export list. A list with a source also imports the
names that are not imported yet. -/
def exportListed (source : Option String) (b : Bindings) (s : ExportSpecifier) : Bindings :=
  match source with
  | some source =>
    let b := { b with imports := b.imports.insertIfNew s.localName ⟨source, s.localName⟩ }
    b.addExport s.exported s.localName (.reexport source s.localName)
  | none => b.addExport s.exported s.localName (.here none)

/-- Adds what a statement exports. A default export without a name is defined
under the name `default`. -/
def addExports (b : Bindings) (s : Statement) : Bindings :=
  match s.node.form with
  | .exportDefault declaration =>
    match declaration.declaredName? with
    | some name => b.addExport "default" name (.here (some s.index))
    | none => (b.addExport "default" "default" (.here (some s.index))).define s.index "default"
  | .exportNamed (some declaration) _ _ =>
    declaration.declarationNames.foldl (exportDeclared s.index) b
  | .exportNamed none specifiers source => specifiers.foldl (exportListed source) b
  | .exportAll (some name) source => b.addExport name name (.wholeModule source)
  | .exportAll none source => { b with starExports := b.starExports ++ [source] }
  | _ => b

/-- Adds what a statement defines. -/
def addDefinitions (b : Bindings) (s : Statement) : Bindings := s.defines.foldl (define s.index) b

/-- The tables of the statements of a module. -/
def ofStatements (path : Path) (statements : List Statement) : Except BuildError Bindings := do
  let imported ← statements.foldlM (addImports path) empty
  return statements.foldl addDefinitions (statements.foldl addExports imported)

end Bindings

-- ---------------------------------------------------------------------------
-- Modules
-- ---------------------------------------------------------------------------

/-- A module: its number among the modules of a bundler, the path it is known by, its
statements and its tables. The statements hold the nodes of the tree and views of the text, so
the tree and the text are not kept beside them. -/
structure Module extends Bindings where
  id : Nat
  path : Path
  statements : Array Statement
  deriving Inhabited

namespace Module

/-- Reads the module of a text, which gets a number and so do its statements. -/
def read (path : Path) (text : String) (id : Nat := 0) : Except BuildError Module :=
  match Node.parse text with
  | .error d => .error (.ofDiagnostic path text d)
  | .ok program => do
    let statements := program.statements text id
    let bindings ← Bindings.ofStatements path statements
    return ⟨bindings, id, path, statements.toArray⟩

/-- The statement at a position. -/
def statement? (m : Module) (index : Nat) : Option Statement := m.statements[index]?

/-- Whether the statement at a position carries no code of its own. -/
def isDeclarationOnly (m : Module) (index : Nat) : Bool :=
  (m.statement? index).any Statement.isDeclarationOnly

/-- The text in a bundle of the statement at a position. -/
def emittedText? (m : Module) (index : Nat) : Option String :=
  (m.statement? index).map Statement.emittedText

end Module

end ModuleBundler
