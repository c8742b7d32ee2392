/-!
# Sets of code points

A set of characters is written as a list of closed intervals of code points, in ascending order.
-/

namespace TypedExports.Text

/-- Closed intervals of code points, each given by its first and its last. -/
abbrev CodePoints := List (Nat × Nat)

/-- Whether the character lies in one of the intervals. -/
def CodePoints.has (set : CodePoints) (c : Char) : Bool :=
  set.any fun interval => interval.1 ≤ c.toNat && c.toNat ≤ interval.2

/-- Whether each interval starts behind the end of the one before it. -/
def CodePoints.ascending : CodePoints → Bool
  | [] => true
  | [interval] => interval.1 ≤ interval.2
  | interval :: next :: rest =>
    interval.1 ≤ interval.2 && interval.2 < next.1 && CodePoints.ascending (next :: rest)

/-- How many code points the intervals hold. -/
def CodePoints.size (set : CodePoints) : Nat :=
  set.foldl (fun n interval => n + (interval.2 + 1 - interval.1)) 0

end TypedExports.Text
