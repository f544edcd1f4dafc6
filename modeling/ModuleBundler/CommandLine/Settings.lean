import ModuleBundler.Json.Quoted

/-!
# ModuleBundler — the settings file

The settings file is JSON: an object with the members `entry` and `output`, or a
list of their values in this order. Both may be left out or be null, none may be
given twice, and nothing else is accepted.

* `Settings.read?` — the settings of a text.
-/

namespace ModuleBundler

/-- What a settings file says: the entry module and the file of the bundle. -/
structure Settings where
  entry : Option String
  output : Option String
  deriving DecidableEq, Repr, Inhabited

namespace Settings

/-- Nothing is set. -/
def empty : Settings := ⟨none, none⟩

/-- White space of JSON. -/
def isSpace (c : Char) : Bool := c = ' ' || c = '\t' || c = '\n' || c = '\x0d'

/-- Passes white space. -/
def skipSpace (cs : List Char) : List Char := cs.dropWhile isSpace

/-- Passes a character, and white space in front of it. -/
def pass? (c : Char) (cs : List Char) : Option (List Char) :=
  match skipSpace cs with
  | d :: rest => if d = c then some rest else none
  | [] => none

/-- Reads a text or null. Like all readers, it also gives what follows. -/
def readValue (cs : List Char) : Option (Option String × List Char) :=
  match skipSpace cs with
  | 'n' :: 'u' :: 'l' :: 'l' :: rest => some (none, rest)
  | cs => (Json.unquote cs).map fun (text, rest) => (some text, rest)

/-- Which members were given, and their values. -/
structure Given where
  entry : Option (Option String)
  output : Option (Option String)

/-- No member was given. -/
def Given.nothing : Given := ⟨none, none⟩

/-- Members that are not given are not set. -/
def Given.settings (g : Given) : Settings := ⟨g.entry.join, g.output.join⟩

/-- Adds a member. A name that is unknown or was given before is refused. -/
def Given.add? (g : Given) (name : String) (value : Option String) : Option Given :=
  match name, g with
  | "entry", ⟨none, output⟩ => some ⟨some value, output⟩
  | "output", ⟨entry, none⟩ => some ⟨entry, some value⟩
  | _, _ => none

/-- Adds the value of the first member that was not given, as a list does. -/
def Given.addNext? (g : Given) (value : Option String) : Option Given :=
  match g with
  | ⟨none, output⟩ => some ⟨some value, output⟩
  | ⟨entry, none⟩ => some ⟨entry, some value⟩
  | _ => none

/-- Reads a member of an object. -/
def readMember (g : Given) (cs : List Char) : Option (Given × List Char) := do
  let (name, cs) ← Json.unquote (skipSpace cs)
  let cs ← pass? ':' cs
  let (value, cs) ← readValue cs
  return (← g.add? name value, cs)

/-- Reads an item of a list. -/
def readItem (g : Given) (cs : List Char) : Option (Given × List Char) := do
  let (value, cs) ← readValue cs
  return (← g.addNext? value, cs)

/-- Reads at least one and at most the given number of entries, with commas between
them, up to a closing bracket. -/
def readEntries (entry : Given → List Char → Option (Given × List Char)) (closing : Char) :
    Nat → Given → List Char → Option (Given × List Char)
  | 0, _, _ => none
  | n + 1, g, cs => do
    let (g, cs) ← entry g cs
    match pass? ',' cs with
    | some cs => readEntries entry closing n g cs
    | none => return (g, ← pass? closing cs)

/-- Reads entries in brackets. There are two settings, so there are no more than two
entries. -/
def readBracketed (entry : Given → List Char → Option (Given × List Char)) (closing : Char)
    (cs : List Char) : Option (Given × List Char) :=
  match pass? closing cs with
  | some rest => some (.nothing, rest)
  | none => readEntries entry closing 2 .nothing cs

/-- Reads an object or a list. -/
def readAll (cs : List Char) : Option (Given × List Char) :=
  match skipSpace cs with
  | '\x7b' :: rest => readBracketed readMember '\x7d' rest
  | '[' :: rest => readBracketed readItem ']' rest
  | _ => none

/-- The settings of a text. -/
def read? (text : String) : Option Settings := do
  let (g, rest) ← readAll text.toList
  guard (skipSpace rest).isEmpty
  return g.settings

/-- What is said of a text that holds no settings. -/
def malformedMessage : String := "invalid esroll config"

end Settings

end ModuleBundler
