/-!
# Supply

A root gets a value for each of its free names that somebody provides.

## Main definitions

* `provided?` — the value provided under a name: of several, the last.
* `supply` — the free names that have a value, in their order.
-/

namespace Scriptlet

/-- The value that is provided under a name; the last one counts. -/
def provided? {α : Type} (name : String) : List (String × α) → Option α
  | [] => none
  | (n, v) :: rest =>
    match provided? name rest with
    | some w => some w
    | none => if n == name then some v else none

/-- The free names with the values provided under them; a name without value is left out. -/
def supply {α : Type} (free : List String) (provided : List (String × α)) : List (String × α) :=
  free.filterMap fun n => (provided? n provided).map fun v => (n, v)

end Scriptlet
