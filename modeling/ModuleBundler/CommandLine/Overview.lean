import ModuleBundler.Json.Value
import ModuleBundler.Module.Basic

/-!
# ModuleBundler — overviews

An overview of a module lists its tables and what the analysis found out about
each of its statements, as a JSON value.
-/

namespace ModuleBundler

open Json (Value)

/-- A list of texts. -/
def Json.texts (items : List String) : Value := .list (items.map .text)

/-- A table as an object. -/
def NameTable.overview (value : β → Value) (t : NameTable β) : Value :=
  .object (t.entries.map fun (name, v) => (name, value v))

/-- Where an imported name comes from. -/
def ImportBinding.overview (b : ImportBinding) : Value :=
  .object [("source", .text b.source), ("name", .text b.name)]

/-- What an exported name leads to. -/
def ExportTarget.overview : ExportTarget → Value
  | here statement =>
    .object [("kind", .text "local"), ("statement", statement.elim .null .number)]
  | reexport source name =>
    .object [("kind", .text "reexport"), ("source", .text source), ("name", .text name)]
  | wholeModule source => .object [("kind", .text "namespace"), ("source", .text source)]

/-- What an exported name stands for. -/
def ExportBinding.overview (b : ExportBinding) : Value :=
  .object [("localName", .text b.localName), ("target", b.target.overview)]

/-- What is known of a statement. -/
def Statement.overview (s : Statement) : Value :=
  .object
    [("index", .number s.index), ("kind", .text s.node.form.kindName),
      ("start", .number s.node.span.start), ("end", .number s.node.span.stop),
      ("isImportDeclaration", .boolean s.node.isImport),
      ("isExportDeclaration", .boolean s.node.isExport),
      ("defines", Json.texts s.defines), ("dependsOn", Json.texts s.dependsOn)]

/-- What is known of a module. -/
def Module.overview (m : Module) : Value :=
  .object
    [("path", .text m.path.text), ("imports", m.imports.overview ImportBinding.overview),
      ("exports", m.exports.overview ExportBinding.overview),
      ("starExports", Json.texts m.starExports),
      ("statements", .list (m.statements.toList.map Statement.overview))]

end ModuleBundler
