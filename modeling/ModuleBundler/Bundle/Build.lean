import ModuleBundler.Bundle.Expansion

/-!
# ModuleBundler — bundles

A bundle is the text of the emitted statements, one after the other, each
followed by a line break. It holds what the statements of the entry module need
and nothing else; names of modules no longer occur in it.

* `expand`, `define`, `expandAll` — what a statement, a name and a module need.
* `generate` — the text of emitted statements.
* `build` — the bundle of an entry module.
-/

namespace ModuleBundler

/-- What a statement depends on, and then the statement itself, less what was
emitted before. -/
def expand (sources : Sources) (ref : StatementRef) : Bundling (Array StatementRef) :=
  run sources #[] [.expand ref]

/-- The statements that bring a name into the scope of a module, less what was
emitted before. -/
def define (sources : Sources) (id : Nat) (name : String) : Bundling (Array StatementRef) :=
  run sources #[] [.define id name]

/-- The statements of a module that carry code, in order. -/
def Module.codeRefs (m : Module) (id : Nat) : List StatementRef :=
  (m.statements.toList.filter fun s => !s.isDeclarationOnly).map fun s => ⟨id, s.index⟩

/-- Expands the statements of a module that carry code, one after the other. -/
def expandAll (sources : Sources) (id : Nat) : Bundling (Array StatementRef) := do
  let m ← moduleAt id
  let parts ← (m.codeRefs id).mapM (expand sources)
  return parts.foldl (· ++ ·) #[]

/-- The line of a statement; nothing, if its module has no such statement. -/
def Module.line (m : Module) (index : Nat) : String :=
  match m.emittedText? index with
  | some text => text ++ "\n"
  | none => ""

/-- The line of a statement of a fetched module. -/
def lineAt (ref : StatementRef) : Bundling String := do
  let m ← moduleAt ref.moduleId
  return m.line ref.index

/-- The text of statements. -/
def generate (refs : List StatementRef) : Bundling String := do
  return String.join (← refs.mapM lineAt)

/-- The bundle of an entry module, which is known by the path as it is given. -/
def build (sources : Sources) (entry : Path) : Bundling String := do
  let id ← fetch sources entry
  let refs ← expandAll sources id
  generate refs.toList

end ModuleBundler
