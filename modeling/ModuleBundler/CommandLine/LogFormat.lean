import ModuleBundler.Text.Character

/-!
# ModuleBundler — log formats

The name of a format may have white space around it and any case. Names that are
not known stand for plain text. Of the characters beyond ASCII none has a lower
case that occurs in a name, so the case of ASCII letters is all that counts.
-/

namespace ModuleBundler

/-- How log entries are written. -/
inductive LogFormat where
  | text
  | tree
  | json
  deriving DecidableEq, Repr, Inhabited

namespace LogFormat

/-- The property `White_Space`. -/
def isSpace (c : Char) : Bool :=
  c = ' ' || ('\t' ≤ c && c ≤ '\x0d') || Text.isWideSpace c

/-- Drops white space at both ends. -/
def trim (cs : List Char) : List Char :=
  ((cs.dropWhile isSpace).reverse.dropWhile isSpace).reverse

/-- The format of a name. -/
def ofName (name : String) : LogFormat :=
  match String.ofList ((trim name.toList).map Char.toLower) with
  | "tree" => .tree
  | "json" => .json
  | _ => .text

end LogFormat

end ModuleBundler
