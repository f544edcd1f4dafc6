/-!
# ModuleBundler — paths

A path is a text that names a file. What it names is told by its components;
empty segments and segments `.` add none, except for a `.` in front. Two texts
with the same components are the same path, spelled differently, and a path is
shown in the spelling it was given.

* `Path.components` — the meaning of a spelling.
* `Path.parent?`, `Path.join` — the directory of a path, and a path in a
  directory.
-/

namespace ModuleBundler

/-- A component of a path. -/
inductive PathComponent where
  | root
  /-- `.` in front of a relative path. -/
  | here
  /-- `..` -/
  | up
  | named (name : String)
  deriving DecidableEq, Repr, Inhabited

/-- How a component is written. -/
def PathComponent.text : PathComponent → String
  | .root => "/"
  | .here => "."
  | .up => ".."
  | .named name => name

namespace Path

-- ---------------------------------------------------------------------------
-- Segments
-- ---------------------------------------------------------------------------

/-- The segments between slashes, in order. There is always at least one. -/
def splitSlashes : List Char → List (List Char)
  | [] => [[]]
  | c :: cs =>
    if c = '/' then [] :: splitSlashes cs
    else
      match splitSlashes cs with
      | [] => [[c]]
      | segment :: rest => (c :: segment) :: rest

/-- The segments of a text. -/
def segments (text : String) : List String := (splitSlashes text.toList).map String.ofList

/-- Segments with slashes between them. -/
def joinSlashes (segments : List String) : String := "/".intercalate segments

/-- The component of a segment that is not in front. -/
def componentOf? (segment : String) : Option PathComponent :=
  if segment = "" || segment = "." then none
  else if segment = ".." then some .up
  else some (.named segment)

/-- The component of the segment in front of a relative path. -/
def firstComponentOf? (segment : String) : Option PathComponent :=
  if segment = "." then some .here else componentOf? segment

/-- Whether a text names a place from the root on. -/
def beginsAtRoot (text : String) : Bool := text.toList.head? = some '/'

/-- The components of a text. -/
def componentsOf (text : String) : List PathComponent :=
  match segments text with
  | [] => []
  | first :: rest =>
    let front :=
      if beginsAtRoot text then [PathComponent.root] else (firstComponentOf? first).toList
    front ++ rest.filterMap componentOf?

end Path

-- ---------------------------------------------------------------------------
-- Paths
-- ---------------------------------------------------------------------------

/-- A path: its spelling, and the components that the spelling stands for. -/
structure Path where
  text : String
  components : List PathComponent
  components_eq : components = Path.componentsOf text

namespace Path

/-- The path of a spelling. -/
def ofText (text : String) : Path := ⟨text, componentsOf text, rfl⟩

instance : Inhabited Path := ⟨ofText ""⟩

/-- Whether two paths are the same, however they are spelled. -/
def same (p q : Path) : Bool := p.components = q.components

/-- Whether a path begins at the root. -/
def isAbsolute (p : Path) : Bool := beginsAtRoot p.text

/-- Drops the segments in front that add no component, from a list that runs
backwards. The last one is the front of the path, where a `.` may count. -/
def dropSilent (dotCounts : Bool) : List String → List String
  | [] => []
  | [s] => if s = "" || (s = "." && !dotCounts) then [] else [s]
  | s :: rest => if s = "" || s = "." then dropSilent dotCounts rest else s :: rest

/-- The directory of a path: the path less its last component. The root has
none, and neither does the empty path. -/
def parent? (p : Path) : Option Path :=
  if p.isAbsolute then
    match dropSilent false (segments p.text).tail.reverse with
    | [] => none
    | _ :: rest => some (ofText ("/" ++ joinSlashes (dropSilent false rest).reverse))
  else
    match dropSilent true (segments p.text).reverse with
    | [] => none
    | _ :: rest => some (ofText (joinSlashes (dropSilent true rest).reverse))

/-- A path in a directory. A path from the root on stands for itself. -/
def join (directory path : Path) : Path :=
  if path.isAbsolute then path
  else if directory.text = "" then path
  else if directory.text.toList.getLast? = some '/' then ofText (directory.text ++ path.text)
  else ofText (directory.text ++ "/" ++ path.text)

/-- The name of the file that a path names, if it ends in one. -/
def fileName? (p : Path) : Option String :=
  match p.components.getLast? with
  | some (.named name) => some name
  | _ => none

/-- Whether a file name has an extension: a dot that is not its first
character. -/
def nameHasExtension (name : String) : Bool := name.toList.tail.contains '.'

/-- Whether the name of a file has an extension. -/
def hasExtension (p : Path) : Bool := p.fileName?.any nameHasExtension

/-- A path with a text added to its spelling. -/
def append (p : Path) (text : String) : Path := ofText (p.text ++ text)

end Path

end ModuleBundler
