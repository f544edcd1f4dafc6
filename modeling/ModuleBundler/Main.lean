import ModuleBundler.Bundle.FileTable
import ModuleBundler.CommandLine.Job
import ModuleBundler.Report

/-!
# ModuleBundler — the program

The program reads and writes files for the command line. A job is done over the
files that are known so far; when it asks for one that is not, that file is read,
and the job is done again. The modules that were read stay in the store, so none
is read or parsed twice.
-/

namespace ModuleBundler.Program

-- ---------------------------------------------------------------------------
-- Files
-- ---------------------------------------------------------------------------

/-- The cause of an error and its number. -/
def causeOf : IO.Error → String
  | .alreadyExists _ code cause | .invalidArgument _ code cause | .permissionDenied _ code cause
  | .resourceExhausted _ code cause | .inappropriateType _ code cause
  | .noSuchThing _ code cause => cause ++ " (os error " ++ toString code ++ ")"
  | .noFileOrDirectory _ code cause | .interrupted _ code cause =>
    cause ++ " (os error " ++ toString code ++ ")"
  | .otherError code cause | .resourceBusy code cause | .resourceVanished code cause
  | .unsupportedOperation code cause | .hardwareFault code cause
  | .unsatisfiedConstraints code cause | .illegalOperation code cause
  | .protocolError code cause | .timeExpired code cause =>
    cause ++ " (os error " ++ toString code ++ ")"
  | .unexpectedEof => "unexpected end of file"
  | .userError cause => cause

/-- Reads a file of the disk. There is none if the path leads to nothing. -/
def readFile (path : Path) : IO (Option FileState) := do
  try
    let handle ← IO.FS.Handle.mk path.text .read
    let bytes ← handle.readBinToEnd
    match String.fromUTF8? bytes with
    | some text => return some (.holds text)
    | none => return some (.unreadable "stream did not contain valid UTF-8")
  catch e =>
    match e with
    | .noFileOrDirectory _ _ _ => return none
    | e => return some (.unreadable (causeOf e))

/-- The text of a file of the disk, if it can be read. -/
def readText (path : Path) : IO (Option String) := do
  match ← readFile path with
  | some (.holds text) => return some text
  | _ => return none

/-- Writes a bundle, and makes the directory for it. -/
def writeBundle (path : Path) (text : String) : IO (Except SetupError Unit) := do
  if let some directory := Job.outputDirectory? path then
    try IO.FS.createDirAll directory.text
    catch _ => return .error (.directoryNotMade directory)
  try
    IO.FS.writeFile path.text text
    return .ok ()
  catch _ => return .error (.bundleNotWritten path)

-- ---------------------------------------------------------------------------
-- Jobs
-- ---------------------------------------------------------------------------

/-- The most modules that a program may have. -/
def capacity : Nat := 0x100000000

/-- What is known of the disk: the files that were read, and all paths that were
asked for. -/
structure Known where
  files : FileTable
  asked : List Path

/-- The known files as sources. -/
def Known.sources (k : Known) : Sources := ⟨Path.resolve, k.files.read, capacity⟩

/-- Does a job, and reads the files that it asks for. -/
partial def perform (job : Job) (overview : Bool) (known : Known) (store : Store) :
    IO (Outcome × Known) := do
  let result := job.text overview known.sources store
  let after := match result with
    | .ok _ s | .error _ s => s
  match after.reads.back? with
  | some path =>
    if known.asked.any (·.same path) then return (job.outcome overview result, known)
    else do
      let entries := match ← readFile path with
        | some state => (path, state) :: known.files.entries
        | none => known.files.entries
      perform job overview ⟨⟨entries⟩, path :: known.asked⟩ { after with visits := ∅, reads := #[] }
  | none => return (job.outcome overview result, known)

/-- The job of arguments. -/
def jobOf (directory : Path) (arguments : Arguments) : IO (Except SetupError Job) := do
  let found ← readText (directory.join (.ofText settingsName))
  let draft ← match Job.settingsPath? arguments directory fun _ => found.isSome with
    | some path => pure (Job.Draft.ofSettings path (← readText path))
    | none => pure (.ok ⟨none, none⟩)
  return draft.bind (Job.ofArguments arguments directory)

/-- Says on the error channel why there is no result. -/
def refuse (text : String) (status : UInt32) : IO UInt32 := do
  IO.eprintln text
  return status

/-- How the program is called. -/
def usage : String :=
  "Tree-shaking bundler for ECMAScript modules\n\n" ++
  "Usage: esroll [OPTIONS] [ENTRY]\n\n" ++
  "Arguments:\n" ++
  "  [ENTRY]  Entry module. Overrides \"entry\" from the config file\n\n" ++
  "Options:\n" ++
  "  -o, --output <OUTPUT>  Write the bundle to this file instead of stdout\n" ++
  "  -c, --config <CONFIG>  Path to a JSON config file (default: ./esroll.config.json if present)\n" ++
  "      --analyze          Print the entry module's statement analysis as JSON instead of bundling\n" ++
  "      --pretty <PRETTY>  Enable color in error output (default: when stderr is a terminal)\n" ++
  "  -h, --help             Print help\n" ++
  "  -V, --version          Print version\n"

/-- Answers arguments that are no job. -/
def answer : ArgumentError → IO UInt32
  | .help => do
    IO.print usage
    return 0
  | .version => do
    IO.println "esroll 0.1.0"
    return 0
  | .unknown argument => refuse ("error: unexpected argument '" ++ argument ++ "' found") 2
  | .invalidValue _ => refuse "error: a value is missing or invalid" 2
  | .repeated => refuse "error: an argument cannot be used multiple times" 2
  | .unexpectedValue value => refuse ("error: unexpected value '" ++ value ++ "' found") 2

/-- Shows what a job came to. -/
def finish (arguments : Arguments) (known : Known) : Outcome → IO UInt32
  | .print text => do
    IO.print text
    return 0
  | .write path text => do
    match ← writeBundle path text with
    | .ok _ => return 0
    | .error e => refuse ("Error: " ++ e.message) 1
  | .failed e => do
    let color ← match arguments.pretty with
      | some color => pure color
      | none => (← IO.getStderr).isTty
    let textOf (path : Path) := (known.files.read path).toOption
    refuse (e.report color textOf) 1

/-- Does what the arguments ask for. -/
def run (arguments : Arguments) : IO UInt32 := do
  let directory := Path.ofText (← IO.currentDir).toString
  match ← jobOf directory arguments with
  | .error e => refuse ("Error: " ++ e.message) 1
  | .ok job => do
    let (outcome, known) ← perform job arguments.analyze ⟨⟨[]⟩, []⟩ .empty
    finish arguments known outcome

end ModuleBundler.Program

/-- The program. -/
def main (arguments : List String) : IO UInt32 :=
  match ModuleBundler.Arguments.read arguments with
  | .ok arguments => ModuleBundler.Program.run arguments
  | .error e => ModuleBundler.Program.answer e
