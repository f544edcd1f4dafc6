/-!
# ModuleBundler — command line arguments

An argument that begins with a dash is an option; the others are values, of the
option in front of them or else of the entry module. The value of an option may
also be attached: to its long name with `=`, to its letter with or without it.
After `--` every argument is the entry module.

A value is not looked at before the next option or entry module is met, so an
argument that is not known is reported rather than a bad value in front of it.

* `Arguments.read` — the arguments, or why they are refused.
-/

namespace ModuleBundler

-- ---------------------------------------------------------------------------
-- Types
-- ---------------------------------------------------------------------------

/-- What may be set by a value. -/
inductive Parameter where
  | entry
  | output
  | config
  | pretty
  deriving DecidableEq, Repr, Inhabited

/-- What an option does. -/
inductive OptionMeaning where
  | takesValue (parameter : Parameter)
  | analyze
  | help
  | version
  deriving DecidableEq, Repr

/-- Why arguments are not accepted. A wish for help or for the version ends the
reading of arguments, too. -/
inductive ArgumentError where
  | unknown (argument : String)
  /-- A value is missing or none of those allowed. -/
  | invalidValue (parameter : Parameter)
  /-- Something is set twice. -/
  | repeated
  /-- A value is attached to an option that takes none. -/
  | unexpectedValue (value : String)
  | help
  | version
  deriving DecidableEq, Repr

/-- What the arguments say. -/
structure Arguments where
  entry : Option String
  output : Option String
  config : Option String
  analyze : Bool
  pretty : Option Bool
  deriving DecidableEq, Repr, Inhabited

/-- The option of a long name. -/
def OptionMeaning.ofLong? : String → Option OptionMeaning
  | "output" => some (.takesValue .output)
  | "config" => some (.takesValue .config)
  | "pretty" => some (.takesValue .pretty)
  | "analyze" => some .analyze
  | "help" => some .help
  | "version" => some .version
  | _ => none

/-- The option of a letter. -/
def OptionMeaning.ofLetter? : Char → Option OptionMeaning
  | 'o' => some (.takesValue .output)
  | 'c' => some (.takesValue .config)
  | 'h' => some .help
  | 'V' => some .version
  | _ => none

-- ---------------------------------------------------------------------------
-- Values
-- ---------------------------------------------------------------------------

namespace Arguments

/-- No arguments. -/
def empty : Arguments := ⟨none, none, none, false, none⟩

/-- Whether a parameter has its value. -/
def isSet (a : Arguments) : Parameter → Bool
  | .entry => a.entry.isSome
  | .output => a.output.isSome
  | .config => a.config.isSome
  | .pretty => a.pretty.isSome

/-- Sets a parameter to a value. Paths are not empty. -/
def put (a : Arguments) (parameter : Parameter) (value : String) :
    Except ArgumentError Arguments :=
  match parameter, value with
  | .pretty, "true" => .ok { a with pretty := some true }
  | .pretty, "false" => .ok { a with pretty := some false }
  | .pretty, _ | _, "" => .error (.invalidValue parameter)
  | .entry, path => .ok { a with entry := some path }
  | .output, path => .ok { a with output := some path }
  | .config, path => .ok { a with config := some path }

/-- Sets a parameter that is not set yet. -/
def set (a : Arguments) (parameter : Parameter) (value : String) :
    Except ArgumentError Arguments :=
  if a.isSet parameter then .error .repeated else a.put parameter value

end Arguments

-- ---------------------------------------------------------------------------
-- Reading
-- ---------------------------------------------------------------------------

namespace Arguments

/-- A parameter that waits: for its value, or for its value to be looked at. -/
structure Waiting where
  parameter : Parameter
  value : Option String
  deriving DecidableEq, Repr

/-- The state between two arguments: what is set, what waits, whether the entry
module was met, and whether `--` was. -/
structure Progress where
  arguments : Arguments
  waiting : Option Waiting
  entryMet : Bool
  dashesMet : Bool
  deriving DecidableEq, Repr

namespace Progress

/-- Before the first argument. -/
def initial : Progress := ⟨.empty, none, false, false⟩

/-- Looks at the value that waits. -/
def settle (p : Progress) : Except ArgumentError Progress :=
  match p.waiting with
  | none => .ok p
  | some ⟨parameter, none⟩ => .error (.invalidValue parameter)
  | some ⟨parameter, some value⟩ => do
    return { p with arguments := ← p.arguments.set parameter value, waiting := none }

/-- Meets an option, with the value that is attached to it. -/
def meet (p : Progress) (option : OptionMeaning) (attached : Option String) :
    Except ArgumentError Progress := do
  let p ← p.settle
  match option with
  | .takesValue parameter =>
    match attached with
    | some value => return { p with arguments := ← p.arguments.set parameter value }
    | none => return { p with waiting := some ⟨parameter, none⟩ }
  | .analyze =>
    if p.arguments.analyze then throw .repeated
    else return { p with arguments := { p.arguments with analyze := true } }
  | .help => throw .help
  | .version => throw .version

/-- Reads an option by its long name, given what follows the dashes. -/
def readLong (p : Progress) (body : List Char) : Except ArgumentError Progress :=
  let name := String.ofList (body.takeWhile (· ≠ '='))
  let attached := ((body.dropWhile (· ≠ '=')).tail?).map String.ofList
  match OptionMeaning.ofLong? name, attached with
  | none, _ => .error (.unknown name)
  | some (.takesValue parameter), _ => p.meet (.takesValue parameter) attached
  | some _, some value => .error (.unexpectedValue value)
  | some option, none => p.meet option none

/-- The value behind the letter of an option. -/
def attachedToLetter : List Char → Option String
  | [] => none
  | '=' :: value => some (String.ofList value)
  | value => some (String.ofList value)

/-- Reads options by their letters. What follows a letter that takes a value is
its value. -/
def readLetters (p : Progress) : List Char → Except ArgumentError Progress
  | [] => .ok p
  | c :: rest =>
    match OptionMeaning.ofLetter? c with
    | none => .error (.unknown (String.ofList ['-', c]))
    | some (.takesValue parameter) => p.meet (.takesValue parameter) (attachedToLetter rest)
    | some option => do readLetters (← p.meet option none) rest

/-- Reads the entry module, of which there is one. -/
def readEntry (p : Progress) (argument : String) : Except ArgumentError Progress :=
  if p.entryMet then .error (.unknown argument)
  else do
    let p ← p.settle
    return { p with waiting := some ⟨.entry, some argument⟩, entryMet := true }

/-- Reads an argument that is no option. -/
def readValue (p : Progress) (argument : String) : Except ArgumentError Progress :=
  match p.waiting with
  | some ⟨parameter, none⟩ => .ok { p with waiting := some ⟨parameter, some argument⟩ }
  | _ => p.readEntry argument

/-- Reads an argument. A dash that stands alone is no option. -/
def read (p : Progress) (argument : String) : Except ArgumentError Progress :=
  if p.dashesMet then p.readEntry argument
  else
    match argument.toList with
    | ['-', '-'] => .ok { p with dashesMet := true }
    | '-' :: '-' :: body => p.readLong body
    | ['-'] => p.readValue argument
    | '-' :: letters => p.readLetters letters
    | _ => p.readValue argument

end Progress

/-- What a list of arguments says. -/
def read (arguments : List String) : Except ArgumentError Arguments := do
  let p ← arguments.foldlM Progress.read .initial
  return (← p.settle).arguments

end Arguments

end ModuleBundler
