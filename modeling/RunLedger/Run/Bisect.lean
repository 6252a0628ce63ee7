/-
  Run/Bisect.lean --- finding a place by halving.

  WHAT THIS FILE IS FOR.  In a list that is in order, the items that satisfy a
  bound come first.  How many they are is found without looking at all of them:
  the part of the list that is still in question is halved until one item is
  left.  The answer is defined for every list and property; it counts the items
  that satisfy the property when these come first.
-/

set_option autoImplicit false

namespace RunLedger

/-- Narrows `size` items from the place `base` on down to one; `holds` says whether the item at a
place satisfies the property.  Every step at least halves the items, so `fuel` steps are enough
for `fuel` items. -/
def bisect (holds : Nat → Bool) : (fuel base size : Nat) → Nat
  | 0, base, _ => base
  | fuel + 1, base, size =>
    if size ≤ 1 then base
    else
      let half := size / 2
      bisect holds fuel (if holds (base + half) then base + half else base) (size - half)

/-- How many items of a list satisfy a property, if those come first that do. -/
def splitPoint {α : Type} (holds : α → Bool) (items : List α) : Nat :=
  let holdsAt (place : Nat) : Bool := items[place]?.any holds
  let base := bisect holdsAt items.length 0 items.length
  if holdsAt base then base + 1 else base

end RunLedger
