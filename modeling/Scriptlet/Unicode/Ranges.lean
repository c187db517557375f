/-!
# Ranges of code points

A property of code points is written down as an ascending table of closed ranges.

## Main definitions

* `Ranges` — such a table.
* `Ranges.contains` — membership, by binary search.
-/

namespace Scriptlet.Unicode

/-- A table of closed ranges of code points, ascending and disjoint. -/
abbrev Ranges := Array (Nat × Nat)

namespace Ranges

/-- Binary search for `p` among the ranges with index in `lo ..< hi`. -/
def search (table : Ranges) (p : Nat) : Nat → Nat → Nat → Bool
  | 0, _, _ => false
  | fuel + 1, lo, hi =>
    if hi ≤ lo then false
    else
      let mid := (lo + hi) / 2
      match table[mid]? with
      | none => false
      | some (first, last) =>
        if p < first then search table p fuel lo mid
        else if last < p then search table p fuel (mid + 1) hi
        else true

/-- Whether some range of the table holds `p`. -/
def contains (table : Ranges) (p : Nat) : Bool :=
  search table p (table.size + 1) 0 table.size

end Ranges

end Scriptlet.Unicode
