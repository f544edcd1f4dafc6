import ModuleBundler.Path.Basic

/-!
# ModuleBundler — normal paths

A normal path has no `.` and goes up only in front, and not at all from the
root. Modules are known by normal paths, so that every spelling of an import
leads to one module.

* `Path.normalize` — collapses `.` and `..`, without regard to what files exist.
* `Path.resolve` — the module that an import names.
-/

namespace ModuleBundler

namespace Path

/-- Goes from a place, given by its components backwards, along one more
component. -/
def step (place : List PathComponent) : PathComponent → List PathComponent
  | .here => place
  | .up =>
    match place with
    | .named _ :: outer => outer
    | .root :: _ => place
    | _ => .up :: place
  | c => c :: place

/-- Components without `.` and with `..` in front only. -/
def collapse (components : List PathComponent) : List PathComponent :=
  (components.foldl step []).reverse

/-- The spelling of components. -/
def spell : List PathComponent → String
  | .root :: rest => "/" ++ joinSlashes (rest.map PathComponent.text)
  | components => joinSlashes (components.map PathComponent.text)

/-- The normal path of a path. -/
def normalize (p : Path) : Path := ofText (spell (collapse p.components))

/-- The directory that imports of a file are relative to. -/
def base (importer : Path) : Path := importer.parent?.getD (ofText "")

/-- The module that an import in a file names: a path in the directory of the
file, with `.js` at the end if it has no extension. -/
def resolve (importer : Path) (importee : String) : Path :=
  let target := (importer.base.join (ofText importee)).normalize
  if target.hasExtension then target else target.append ".js"

end Path

end ModuleBundler
