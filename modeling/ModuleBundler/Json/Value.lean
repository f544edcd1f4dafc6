import ModuleBundler.Json.Quoted

/-!
# ModuleBundler — JSON values

Values for output, and the layout in which they are printed: one entry of a list
or object a line, two blanks deeper than what it is in. Empty lists and objects
stay on their line.
-/

namespace ModuleBundler.Json

/-- A value. The members of an object come in the order in which they are given. -/
inductive Value where
  | null
  | boolean (value : Bool)
  | number (value : Nat)
  | text (value : String)
  | list (items : List Value)
  | object (members : List (String × Value))
  deriving Repr, Inhabited

/-- A line break and the blanks of a depth. -/
def newline (depth : Nat) : String := "\n" ++ String.ofList (List.replicate (2 * depth) ' ')

/-- Puts brackets around printed entries. -/
def layout (opening closing : String) (depth : Nat) (entries : List String) : String :=
  if entries.isEmpty then opening ++ closing
  else
    opening ++ newline (depth + 1) ++ ("," ++ newline (depth + 1)).intercalate entries ++
      newline depth ++ closing

mutual

/-- Prints a value at a depth. -/
def Value.printAt (depth : Nat) : Value → String
  | .null => "null"
  | .boolean b => if b then "true" else "false"
  | .number n => toString n
  | .text s => quote s
  | .list items => layout "[" "]" depth (printItems (depth + 1) items)
  | .object members => layout "\x7b" "\x7d" depth (printMembers (depth + 1) members)

/-- Prints the items of a list. -/
def printItems (depth : Nat) : List Value → List String
  | [] => []
  | v :: rest => v.printAt depth :: printItems depth rest

/-- Prints the members of an object, each after its name. -/
def printMembers (depth : Nat) : List (String × Value) → List String
  | [] => []
  | (name, v) :: rest => (quote name ++ ": " ++ v.printAt depth) :: printMembers depth rest

end

/-- Prints a value. -/
def Value.print (v : Value) : String := v.printAt 0

end ModuleBundler.Json
