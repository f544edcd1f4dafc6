import ModuleBundler.Module.Error
import ModuleBundler.Text.Lines

/-!
# ModuleBundler — reports

A report tells a person about a build error. For a module that the parser refuses
it shows the line of the text, with a mark under the place:

    src/main.js:2:11 - error: Expression expected.

      2     let x = ;
                    ~

* `BuildError.report` — the report of an error.
* `Report.marker` — the line with the mark.
-/

namespace ModuleBundler

namespace Report

/-- How a part of a report stands out on a terminal. -/
inductive Style where
  | category
  | place
  | mark
  deriving DecidableEq, Repr

/-- The sequence that begins a style: bold red, cyan, red. -/
def Style.start : Style → String
  | category => "\x1b[1;31m"
  | place => "\x1b[36m"
  | mark => "\x1b[31m"

/-- The sequence that ends a style. -/
def reset : String := "\x1b[0m"

/-- A text in a style, if styles are wanted. The style goes on after a reset inside
the text. -/
def paint (color : Bool) (style : Style) (text : String) : String :=
  if color then
    style.start ++ (reset ++ style.start).intercalate (text.splitOn reset) ++ reset
  else text

/-- A number, with blanks in front up to a width of three. -/
def padded (n : Nat) : String :=
  let digits := toString n
  String.ofList (List.replicate (3 - digits.length) ' ') ++ digits

/-- A mark under the character of a column. Tabs stay tabs, so that the mark stands
below its character. -/
def marker (line : String) (column : Nat) : String :=
  String.ofList (((line.toList.take (column - 1)).map fun c => if c = '\t' then '\t' else ' ') ++ ['~'])

/-- The line of a place and the mark under it, if the text has such a line. -/
def snippet? (color : Bool) (text : String) (location : Text.Location) : Option String :=
  (Text.line? text location.line).map fun line =>
    "\n\n  " ++ padded location.line ++ "   " ++ line ++ "\n        " ++
      paint color .mark (marker line location.column)

end Report

open Report in
/-- The report of an error, given the texts of files. -/
def BuildError.report (color : Bool) (textOf : Path → Option String) (e : BuildError) : String :=
  let category := paint color .category "error"
  match e with
  | .parse file location message =>
    paint color .place (placeText file location) ++ " - " ++ category ++ ": " ++ message ++
      ((textOf file).bind (snippet? color · location)).getD ""
  | _ => category ++ ": " ++ e.message

end ModuleBundler
