/-!
# Ranges of code points

A class of characters is written down as the ranges of its code points.  The ranges of a class stand
in ascending order and do not touch, so each class has one written form, and the number of its code
points is the sum of their lengths.
-/

namespace NodeQuery.Text

/-- Ranges of code points, each by its first and its last. -/
abbrev CodeRanges := List (Nat × Nat)

namespace CodeRanges

def contains (ranges : CodeRanges) (c : Char) : Bool :=
  ranges.any fun (first, last) => decide (first ≤ c.toNat) && decide (c.toNat ≤ last)

/-- Whether the ranges ascend, each leaving a gap before the next. -/
def isAscending : CodeRanges → Bool
  | [] => true
  | [(first, last)] => decide (first ≤ last)
  | (first, last) :: next :: rest =>
    decide (first ≤ last) && decide (last + 1 < next.1) && isAscending (next :: rest)

/-- The number of code points in ascending ranges. -/
def size : CodeRanges → Nat
  | [] => 0
  | (first, last) :: rest => last + 1 - first + size rest

end CodeRanges

end NodeQuery.Text
