/-!
# ModuleBundler — lines as they are shown

The lines of a text without what ends them, which is LF or CR LF. A CR that no
LF follows is part of its line, and what ends the last line begins no other one.
-/

namespace ModuleBundler.Text

/-- A line that LF ends, from its characters backwards. -/
def endedLine : List Char → List Char
  | '\x0d' :: line => line.reverse
  | line => line.reverse

/-- The lines of a text, given the characters of the first line that were passed,
backwards. -/
def linesFrom (passed : List Char) : List Char → List (List Char)
  | [] => if passed.isEmpty then [] else [passed.reverse]
  | c :: cs => if c = '\n' then endedLine passed :: linesFrom [] cs else linesFrom (c :: passed) cs

/-- The lines of a text. -/
def lines (text : String) : List String := (linesFrom [] text.toList).map String.ofList

/-- The line of a number, counted from one. -/
def line? (text : String) (number : Nat) : Option String :=
  if number = 0 then none else (lines text)[number - 1]?

end ModuleBundler.Text
