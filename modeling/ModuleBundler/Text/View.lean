import ModuleBundler.Text.Span
import ModuleBundler.Total

/-!
# ModuleBundler — views of a text

A view shows part of a text: a window into it, less some removed ranges. All
offsets are offsets into the whole text, so a view cut out of another one is
edited with the offsets that the parser produced.

The removed ranges of a view are kept in ascending order, inside the window,
with at least one byte between them.
-/

namespace ModuleBundler.Text

/-- The bytes of `text` from `start` up to `stop`; nothing when the range is no
range of the text or cuts a character. -/
def slice (text : String) (start stop : Nat) : String :=
  let a : String.Pos.Raw := ⟨start⟩
  let b : String.Pos.Raw := ⟨stop⟩
  if start ≤ stop && a.isValid text && b.isValid text then a.extract text b else ""

/-- A window into a text, with ranges removed from it. -/
structure View where
  text : String
  window : Span
  removed : List Span
  deriving Repr, Inhabited

namespace View

/-- The view of a whole text. -/
def whole (text : String) : View := ⟨text, ⟨0, text.utf8ByteSize⟩, []⟩

/-- The part of a range that lies in the window: both ends are moved into the
window, and the second one not before the first. -/
def clamp (v : View) (start stop : Nat) : Span :=
  let s := min (max start v.window.start) v.window.stop
  ⟨s, min (max stop s) v.window.stop⟩

/-- The part of a removed range that lies in a window, if there is one. -/
def clip (window r : Span) : Option Span :=
  let s := max r.start window.start
  let e := min r.stop window.stop
  if s < e then some ⟨s, e⟩ else none

/-- A view of part of a view; what was removed stays removed. -/
def snip (v : View) (start stop : Nat) : View :=
  let window := v.clamp start stop
  ⟨v.text, window, v.removed.filterMap (clip window)⟩

/-- Whether two ranges neither overlap nor touch. -/
def apart (r s : Span) : Bool := r.stop < s.start || s.stop < r.start

/-- Melts a range together with the ranges it overlaps or touches. Gives the
ranges that stand apart, in their order, and the melted range. -/
def absorb : List Span → Span → List Span × Span
  | [], s => ([], s)
  | r :: rs, s =>
    if apart r s then
      let (kept, melted) := absorb rs s
      (r :: kept, melted)
    else absorb rs (s.cover r)

/-- Puts a range before the first one that begins after it. -/
def insertRange (s : Span) : List Span → List Span
  | [] => [s]
  | r :: rs => if s.start < r.start then s :: r :: rs else r :: insertRange s rs

/-- Removes a range from a view. What lies outside the window is ignored. -/
def remove (v : View) (start stop : Nat) : View :=
  let range := v.clamp start stop
  if range.isEmpty then v
  else
    let (kept, melted) := absorb v.removed range
    { v with removed := insertRange melted kept }

/-- The number of bytes that a view shows. -/
def length (v : View) : Nat := v.window.length - total Span.length v.removed

/-- Whether a view shows nothing. -/
def isEmpty (v : View) : Bool := v.length = 0

/-- The pieces of text from `cursor` on that lie between removed ranges. -/
def pieces (text : String) (stop : Nat) (cursor : Nat) : List Span → String
  | [] => slice text cursor stop
  | r :: rs => slice text cursor r.start ++ pieces text stop r.stop rs

/-- The text that a view shows. -/
def toText (v : View) : String := pieces v.text v.window.stop v.window.start v.removed

end View

end ModuleBundler.Text
