import ModuleBundler.Bundle.Store

/-!
# ModuleBundler — tables of files

Files that are known beforehand, by path. They serve as the sources of a bundler,
with room for as many modules as there are files.
-/

namespace ModuleBundler

/-- What reading a file comes to. -/
inductive FileState where
  | holds (text : String)
  | unreadable (cause : String)
  deriving DecidableEq, Repr, Inhabited

/-- Files by path. Of two files of one path the later one counts. -/
structure FileTable where
  entries : List (Path × FileState)
  deriving Inhabited

namespace FileTable

/-- The file of a path, however the path is spelled. -/
def find? (t : FileTable) (path : Path) : Option FileState :=
  (t.entries.reverse.find? fun e => e.1.same path).map Prod.snd

/-- Reads a file. -/
def read (t : FileTable) (path : Path) : Except BuildError String :=
  match t.find? path with
  | some (.holds text) => .ok text
  | some (.unreadable cause) => .error (.unreadable path cause)
  | none => .error (.notFound path)

/-- The modules of a table of files. -/
def sources (t : FileTable) : Sources := ⟨Path.resolve, t.read, t.entries.length⟩

end FileTable

end ModuleBundler
