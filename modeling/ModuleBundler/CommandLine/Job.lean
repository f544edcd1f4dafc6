import ModuleBundler.Bundle.Build
import ModuleBundler.CommandLine.Arguments
import ModuleBundler.CommandLine.FileTree
import ModuleBundler.CommandLine.Overview
import ModuleBundler.CommandLine.Settings

/-!
# ModuleBundler — jobs of the command line

A job is an entry module and, if the bundle is to be written, its file. The
arguments say what it is; the settings file of the current directory, or one that
the arguments name, fills in what they leave out. Paths in arguments are relative
to the current directory, paths in a settings file to its own directory.

* `Job.ofArguments` — the job of arguments and settings.
* `Job.perform` — a bundle or an overview of the entry module.
* `FileTree.runJob` — all of it on a tree of files.
-/

namespace ModuleBundler

/-- Why no job can be done, or its result not be written. -/
inductive SetupError where
  | unreadableSettings (path : Path)
  | malformedSettings (path : Path)
  | noEntry
  | directoryNotMade (path : Path)
  | bundleNotWritten (path : Path)

/-- The name of the settings file that is looked for. -/
def settingsName : String := "esroll.config.json"

/-- The wording of a setup error. -/
def SetupError.message : SetupError → String
  | unreadableSettings p => "failed to read config: " ++ p.text
  | malformedSettings p => "failed to parse config: " ++ p.text
  | noEntry => "no entry module: pass an ENTRY argument or set \"entry\" in " ++ settingsName
  | directoryNotMade p => "failed to create output directory: " ++ p.text
  | bundleNotWritten p => "failed to write bundle: " ++ p.text

/-- An entry module and the file for its bundle. -/
structure Job where
  entry : Path
  output : Option Path

/-- What a job comes to. -/
inductive Outcome where
  | print (text : String)
  | write (path : Path) (text : String)
  | failed (error : BuildError)

namespace Job

-- ---------------------------------------------------------------------------
-- Settings
-- ---------------------------------------------------------------------------

/-- The settings file: the one that the arguments name, or else the one in the
current directory, if there is one. -/
def settingsPath? (arguments : Arguments) (directory : Path) (isFile : Path → Bool) : Option Path :=
  match arguments.config with
  | some path => some (directory.join (.ofText path))
  | none =>
    let path := directory.join (.ofText settingsName)
    if isFile path then some path else none

/-- A job in which nothing is certain. -/
structure Draft where
  entry : Option Path
  output : Option Path

/-- What a settings file with the given text says. Its paths are relative to its
directory. -/
def Draft.ofSettings (path : Path) (text : Option String) : Except SetupError Draft :=
  match text with
  | none => .error (.unreadableSettings path)
  | some text =>
    match Settings.read? text with
    | none => .error (.malformedSettings path)
    | some settings =>
      .ok ⟨settings.entry.map fun p => path.base.join (.ofText p),
        settings.output.map fun p => path.base.join (.ofText p)⟩

/-- The job of arguments, where a draft fills in what they leave out. -/
def ofArguments (arguments : Arguments) (directory : Path) (draft : Draft) :
    Except SetupError Job :=
  let entry := (arguments.entry.map fun p => directory.join (.ofText p)) <|> draft.entry
  let output := (arguments.output.map fun p => directory.join (.ofText p)) <|> draft.output
  match entry with
  | some entry => .ok ⟨entry, output⟩
  | none => .error .noEntry

-- ---------------------------------------------------------------------------
-- Results
-- ---------------------------------------------------------------------------

/-- The text that a job comes to: the bundle of the entry module, or an overview
of it. -/
def text (job : Job) (overview : Bool) (sources : Sources) : Bundling String :=
  if overview then do
    let id ← fetch sources job.entry
    let m ← moduleAt id
    return m.overview.print ++ "\n"
  else build sources job.entry

/-- What becomes of the result of a job. Overviews are always printed. -/
def outcome (job : Job) (overview : Bool) : EStateM.Result BuildError Store String → Outcome
  | .error e _ => .failed e
  | .ok text _ =>
    match job.output with
    | some path => if overview then .print text else .write path text
    | none => .print text

/-- Does a job. -/
def perform (job : Job) (overview : Bool) (sources : Sources) : Outcome :=
  job.outcome overview (job.text overview sources .empty)

/-- The directory that has to be there to write a file: none for a file whose path
is a mere name. -/
def outputDirectory? (path : Path) : Option Path := path.parent?.filter (·.text ≠ "")

end Job

namespace FileTree

/-- Writes a bundle, and makes the directory for it. -/
def writeBundle (t : FileTree) (path : Path) (text : String) : Except SetupError FileTree := do
  let t ← match Job.outputDirectory? path with
    | some directory => (t.makeDirectory directory).mapError fun _ => .directoryNotMade directory
    | none => pure t
  (t.write path text).mapError fun _ => .bundleNotWritten path

/-- The job of arguments in a directory of a tree. -/
def job (t : FileTree) (directory : Path) (arguments : Arguments) : Except SetupError Job := do
  let draft ← match Job.settingsPath? arguments directory t.isFile with
    | some path => Job.Draft.ofSettings path (t.text? path)
    | none => pure ⟨none, none⟩
  Job.ofArguments arguments directory draft

/-- Does the job of arguments in a directory of a tree. -/
def runJob (t : FileTree) (directory : Path) (arguments : Arguments) :
    Except SetupError Outcome := do
  let job ← t.job directory arguments
  let outcome := job.perform arguments.analyze t.sources
  if let .write path text := outcome then
    let _ ← t.writeBundle path text
  return outcome

end FileTree

end ModuleBundler
