/-!
# ModuleBundler — lines and columns

Diagnostics name places by line and column, both counted from one. Lines end at
LF only; columns count bytes. A `LineTable` holds the offsets where the lines of
a text begin, so that an offset is located by halving. Offsets, lines and columns
are natural numbers of any size; like the offsets of a cursor they stand for
numbers of 32 bits.
-/

namespace ModuleBundler.Text

/-- A line and a column, both counted from one. -/
structure Location where
  line : Nat
  column : Nat
  deriving Repr, Inhabited, DecidableEq

/-- The offsets where the lines of a text begin, in ascending order. -/
structure LineTable where
  starts : Array Nat
  deriving Repr, Inhabited

namespace LineTable

/-- Adds the line starts of the characters that lie ahead of `offset`. -/
def collect (offset : Nat) (starts : Array Nat) : List Char → Array Nat
  | [] => starts
  | c :: cs =>
    let next := offset + c.utf8Size
    collect next (if c = '\n' then starts.push next else starts) cs

/-- The line starts of a text: its beginning, and what follows each LF. -/
def ofText (text : String) : LineTable := ⟨collect 0 #[0] text.toList⟩

/-- The number of lines. -/
def lineCount (t : LineTable) : Nat := t.starts.size

/-- How many of the starts from `lo` up to `hi` are at most `offset`, plus
`lo`; found by halving the range. -/
def rankIn (starts : Array Nat) (offset lo hi : Nat) : Nat :=
  if lo < hi then
    let mid := (lo + hi) / 2
    if starts.getD mid 0 ≤ offset then rankIn starts offset (mid + 1) hi
    else rankIn starts offset lo mid
  else lo
termination_by hi - lo

/-- The place of an offset: the last line that begins at or before it. Offsets
past the end belong to the last line. -/
def location (t : LineTable) (offset : Nat) : Location :=
  let index := rankIn t.starts offset 0 t.starts.size - 1
  ⟨index + 1, offset - t.starts.getD index 0 + 1⟩

end LineTable

end ModuleBundler.Text
