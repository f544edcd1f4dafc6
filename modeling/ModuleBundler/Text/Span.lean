/-!
# ModuleBundler — spans

A span is a half-open range of byte offsets. The ends of a span that was
written down by hand may come in either order; such a span is empty.
-/

namespace ModuleBundler.Text

/-- The byte offsets from `start` up to, but not including, `stop`. -/
structure Span where
  start : Nat
  stop : Nat
  deriving Repr, Inhabited, DecidableEq

namespace Span

/-- The empty span at an offset. -/
def point (offset : Nat) : Span := ⟨offset, offset⟩

/-- The number of offsets in a span. -/
def length (s : Span) : Nat := s.stop - s.start

/-- Whether a span holds no offset. -/
def isEmpty (s : Span) : Bool := s.stop ≤ s.start

/-- Whether an offset lies in a span. -/
def contains (s : Span) (offset : Nat) : Bool := s.start ≤ offset && offset < s.stop

/-- Whether the ends of `t` lie between the ends of `s`. -/
def encloses (s t : Span) : Bool := s.start ≤ t.start && t.stop ≤ s.stop

/-- The smallest span that reaches over both. -/
def cover (s t : Span) : Span := ⟨min s.start t.start, max s.stop t.stop⟩

end Span

end ModuleBundler.Text
