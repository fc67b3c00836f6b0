/-!
Waits on a clock, side by side. A wait for a reply may be bounded by a time limit and given up when a
token is cancelled; each of the two puts a layer around the reply.
-/

namespace ModelHub

/-- What a wait ends with, and when, unless it never ends. -/
abbrev Timed (α : Type) := Option (α × Nat)

/-- Two waits side by side end with the one that ends first. At one instant that is the left one. -/
def Timed.race {α β : Type} : Timed α → Timed β → Timed (Except β α)
  | some (value, m), some (other, n) =>
    if m ≤ n then some (.ok value, m) else some (.error other, n)
  | some (value, m), none => some (.ok value, m)
  | none, some (other, n) => some (.error other, n)
  | none, none => none

structure Elapsed where
  deriving DecidableEq, Repr

structure Interrupted where
  deriving DecidableEq, Repr

end ModelHub
