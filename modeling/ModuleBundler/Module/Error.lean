import ModuleBundler.Grammar.Parser
import ModuleBundler.Path.Basic
import ModuleBundler.Text.Location

/-!
# ModuleBundler — what stops a bundle

The first error ends the work on a bundle. Each error knows the file it is
about, and its message names it.
-/

namespace ModuleBundler

/-- The cause why there is no bundle. -/
inductive BuildError where
  /-- A name is imported twice in one module. -/
  | duplicateBinding (inModule : Path) (name : String)
  /-- A module is asked for a name that it does not export. -/
  | exportNotFound (inModule : Path) (name : String)
  /-- A name that stands for a whole module is used as a value. -/
  | unsupportedNamespace (inModule : Path) (name : String)
  /-- The search for what a name stands for came back to where it was. -/
  | circularReexport (inModule : Path) (name : String)
  /-- There is no such file. -/
  | notFound (path : Path)
  /-- A file cannot be read. -/
  | unreadable (path : Path) (cause : String)
  /-- A module is refused by the parser. -/
  | parse (file : Path) (location : Text.Location) (message : String)
  /-- There are more modules than there is room for. The bundler itself knows no such
  error: it is what stands for reading without end, where a reader makes up files as long
  as there are imports. With room for each file of a table no run meets it. -/
  | tooManyModules (path : Path)

namespace BuildError

/-- The error for a diagnostic about the text of a file. -/
def ofDiagnostic (file : Path) (text : String) (d : Grammar.Diagnostic) : BuildError :=
  .parse file ((Text.LineTable.ofText text).location d.span.start) d.message

/-- The file that an error is about. -/
def path : BuildError → Path
  | duplicateBinding p _ | exportNotFound p _ | unsupportedNamespace p _ | circularReexport p _ => p
  | notFound p | unreadable p _ | parse p _ _ | tooManyModules p => p

/-- The name of a place in a file. -/
def placeText (file : Path) (location : Text.Location) : String :=
  file.text ++ ":" ++ toString location.line ++ ":" ++ toString location.column

/-- The wording of an error. -/
def message : BuildError → String
  | duplicateBinding p name => "Duplicated import '" ++ name ++ "' in '" ++ p.text ++ "'."
  | exportNotFound p name =>
    "Module '" ++ p.text ++ "' has no exported member '" ++ name ++ "'."
  | unsupportedNamespace p name =>
    "Namespace binding '" ++ name ++ "' in '" ++ p.text ++ "' cannot be bundled."
  | circularReexport p name =>
    "Circular re-export of '" ++ name ++ "' detected in '" ++ p.text ++ "'."
  | notFound p => "Cannot find module '" ++ p.text ++ "'."
  | unreadable p cause => "Failed to read '" ++ p.text ++ "': " ++ cause
  | parse file location message => placeText file location ++ ": " ++ message
  | tooManyModules p => "Too many modules to bundle '" ++ p.text ++ "'."

end BuildError

end ModuleBundler
