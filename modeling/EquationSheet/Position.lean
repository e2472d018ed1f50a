/-!
# Positions in lists

An index into a list counts from the start when it is not negative, and from the end when it is: the
index `-1` means the last item.

* `position?`: the position an index means, if the list has it.
* `position?_lt`: such a position lies in the list.
-/

namespace EquationSheet

/-- The position that an index means in a list of `count` items. -/
def position? (count : Nat) (index : Int) : Option Nat :=
  if 0 ≤ index then (if index.toNat < count then some index.toNat else none)
  else if -index ≤ count then some (count - (-index).toNat) else none

theorem position?_lt {count i : Nat} {index : Int} (h : position? count index = some i) :
    i < count := by
  unfold position? at h
  split at h
  · split at h
    · simp only [Option.some.injEq] at h
      omega
    · simp at h
  · split at h
    · simp only [Option.some.injEq] at h
      omega
    · simp at h

end EquationSheet
