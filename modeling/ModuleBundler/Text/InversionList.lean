/-!
# ModuleBundler — sets of characters as inversion lists

A set of code points is stored as the ascending list of the points where
membership changes: the set starts at the first entry, stops just before the
second, starts again at the third, and so on. A point belongs to the set when
the number of entries at or below it is odd.
-/

namespace ModuleBundler.Text

/-- A set of code points, given by the ascending points where membership
changes. -/
structure InversionList where
  bounds : Array Nat
  deriving Inhabited

namespace InversionList

/-- How many of the entries from `lo` up to `hi` are at most `c`, plus `lo`;
found by halving the range. -/
def rankIn (bounds : Array Nat) (c lo hi : Nat) : Nat :=
  if lo < hi then
    let mid := (lo + hi) / 2
    if bounds.getD mid 0 ≤ c then rankIn bounds c (mid + 1) hi else rankIn bounds c lo mid
  else lo
termination_by hi - lo

/-- How many entries are at most `c`. -/
def rank (s : InversionList) (c : Nat) : Nat := rankIn s.bounds c 0 s.bounds.size

/-- Membership: an odd number of changes lies at or below `c`. -/
def contains (s : InversionList) (c : Nat) : Bool := s.rank c % 2 = 1

end InversionList

end ModuleBundler.Text
