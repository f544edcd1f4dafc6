import ModuleBundler.Bundle.Store

/-!
# ModuleBundler — trees of files

Files and directories below one root. A path is followed segment by segment: each
segment is looked up in a directory, `..` leads to the directory around it, and
even a slash at the end asks for a directory. A place is the list of names that
lead to it from the root, without `.` and `..`. A path holds no NUL, and is less
than 4096 bytes long; a name is at most 255 bytes long.

* `FileTree.follow` — the place that a path leads to.
* `FileTree.read`, `FileTree.sources` — files as the sources of a bundler.
* `FileTree.makeDirectory`, `FileTree.write` — changes.
-/

namespace ModuleBundler

/-- The names that lead from the root to a file or directory. -/
abbrev Place := List String

/-- A tree of files. Of two files at one place the first one counts. -/
structure FileTree where
  files : List (Place × String)
  directories : List Place
  deriving Inhabited

/-- Why a path cannot be followed. -/
inductive Obstacle where
  | missing
  | notDirectory
  | isDirectory
  /-- The path or one of its names is too long. -/
  | tooLong
  /-- The path holds a NUL. -/
  | holdsNul
  deriving DecidableEq, Repr

namespace FileTree

/-- A tree with nothing in it. -/
def empty : FileTree := ⟨[], []⟩

/-- Whether there is a directory at a place. The root is one. -/
def hasDirectory (t : FileTree) (place : Place) : Bool := place = [] || t.directories.contains place

/-- The text of the file at a place. -/
def textAt? (t : FileTree) (place : Place) : Option String :=
  (t.files.find? fun e => e.1 = place).map Prod.snd

/-- The places around a place, without the root. -/
def around (place : Place) : List Place :=
  (List.range (place.length - 1)).map fun n => place.take (n + 1)

/-- Puts a file at a place, and directories around it. -/
def put (t : FileTree) (place : Place) (text : String) : FileTree :=
  ⟨(place, text) :: t.files, around place ++ t.directories⟩

/-- The segments of a path that can be followed at all. -/
def segments (path : Path) : Except Obstacle (List String) :=
  if path.text.toList.contains '\x00' then .error .holdsNul
  else if path.text = "" then .error .missing
  else if 4096 ≤ path.text.utf8ByteSize then .error .tooLong
  else .ok (Path.segments path.text)

/-- Follows one segment from a place. -/
def step (t : FileTree) (place : Place) (segment : String) : Except Obstacle Place :=
  if !t.hasDirectory place then .error .notDirectory
  else if segment = "" || segment = "." then .ok place
  else if segment = ".." then .ok place.dropLast
  else if 255 < segment.utf8ByteSize then .error .tooLong
  else
    let target := place ++ [segment]
    if t.hasDirectory target || (t.textAt? target).isSome then .ok target else .error .missing

/-- The place that a path leads to from the root. The empty path leads nowhere. -/
def follow (t : FileTree) (path : Path) : Except Obstacle Place := do
  (← segments path).foldlM t.step []

/-- The text of the file that a path leads to. -/
def text (t : FileTree) (path : Path) : Except Obstacle String := do
  let place ← t.follow path
  match t.textAt? place with
  | some text => return text
  | none => throw .isDirectory

/-- The text of a file, if it can be read. -/
def text? (t : FileTree) (path : Path) : Option String := (t.text path).toOption

/-- Whether a path leads to a file. -/
def isFile (t : FileTree) (path : Path) : Bool := (t.text? path).isSome

/-- What reading a module fails with. -/
def failure (path : Path) : Obstacle → BuildError
  | .missing => .notFound path
  | .notDirectory => .unreadable path "Not a directory (os error 20)"
  | .isDirectory => .unreadable path "Is a directory (os error 21)"
  | .tooLong => .unreadable path "File name too long (os error 36)"
  | .holdsNul => .unreadable path "file name contained an unexpected NUL byte"

/-- Reads a module. -/
def read (t : FileTree) (path : Path) : Except BuildError String :=
  (t.text path).mapError (failure path)

/-- The modules of a tree. Each file has one normal path, and the entry module may
have another one. -/
def sources (t : FileTree) : Sources := ⟨Path.resolve, t.read, t.files.length + 1⟩

/-- Follows one segment from a place, and makes a directory if nothing is there. -/
def stepMaking (s : FileTree × Place) (segment : String) : Except Obstacle (FileTree × Place) :=
  let (t, place) := s
  match t.step place segment with
  | .ok target => .ok (t, target)
  | .error .missing => .ok (⟨t.files, (place ++ [segment]) :: t.directories⟩, place ++ [segment])
  | .error e => .error e

/-- Makes the directories that a path leads through and to. -/
def makeDirectory (t : FileTree) (path : Path) : Except Obstacle FileTree := do
  let (t, place) ← (← segments path).foldlM stepMaking (t, [])
  if t.hasDirectory place then return t else throw .notDirectory

/-- Writes a file into a directory, in place of the one that was there. -/
def write (t : FileTree) (path : Path) (text : String) : Except Obstacle FileTree := do
  let names ← segments path
  let directory ← names.dropLast.foldlM t.step []
  match t.step directory (names.getLast?.getD "") with
  | .ok place => if t.hasDirectory place then throw .isDirectory else return t.put place text
  | .error .missing => return t.put (directory ++ [names.getLast?.getD ""]) text
  | .error e => throw e

end FileTree

end ModuleBundler
