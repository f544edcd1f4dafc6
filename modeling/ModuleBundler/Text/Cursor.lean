/-!
# ModuleBundler — positions in a text

The tokenizer reads a text as a list of characters and keeps count of the bytes
it has passed, so that every position it reports is a byte offset into the
UTF-8 text. A `Cursor` is such a position: the characters still ahead and the
offset where they begin. Offsets are natural numbers of any size; they stand for
numbers of 32 bits, which suffice for texts that are shorter than 4 GiB.

* `Cursor.advance` — past one character.
* `Cursor.skipWhile` — past the longest run of characters of a class.
* `Cursor.textTo` — the text between two positions.
-/

namespace ModuleBundler.Text

/-- A position in a text: the characters ahead, and the number of bytes before
them. -/
structure Cursor where
  offset : Nat
  rest : List Char
  deriving Repr, Inhabited, DecidableEq

namespace Cursor

/-- The beginning of a text. -/
def start (text : String) : Cursor := ⟨0, text.toList⟩

/-- Whether nothing is ahead. -/
def atEnd (c : Cursor) : Bool := c.rest.isEmpty

/-- The character ahead. -/
def peek? (c : Cursor) : Option Char := c.rest.head?

/-- Past the next character; at the end, nowhere. -/
def advance (c : Cursor) : Cursor :=
  match c.rest with
  | [] => c
  | ch :: cs => ⟨c.offset + ch.utf8Size, cs⟩

/-- Past the next `n` characters. -/
def drop : Nat → Cursor → Cursor
  | 0, c => c
  | n + 1, c => drop n c.advance

/-- Past the longest run of characters that satisfy `p`. -/
def skipWhile (p : Char → Bool) (c : Cursor) : Cursor :=
  go c.offset c.rest
where
  go (offset : Nat) : List Char → Cursor
    | [] => ⟨offset, []⟩
    | ch :: cs => if p ch then go (offset + ch.utf8Size) cs else ⟨offset, ch :: cs⟩

/-- The text that lies ahead up to `limit`, a byte offset. -/
def textUpTo (c : Cursor) (limit : Nat) : String :=
  go c.offset c.rest ""
where
  go (offset : Nat) : List Char → String → String
    | [], acc => acc
    | ch :: cs, acc =>
      if offset < limit then go (offset + ch.utf8Size) cs (acc.push ch) else acc

/-- The text from one position to a later one. -/
def textTo (c d : Cursor) : String := c.textUpTo d.offset

end Cursor

end ModuleBundler.Text
