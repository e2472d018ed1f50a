import EquationSheet.Binary64.Basic
import EquationSheet.Text.Utf16

/-!
# JSON values

Objects keep their members in order and hold each key once. Integers are unbounded and are told
apart from binary64 numbers, which include the infinities and the number that is none.

* `Members.put`: sets a member, in place if the key is there and at the end otherwise.
* `Members.putDefault`: adds a member unless the key is there.
* `get?_put`, `get?_putDefault`: what a look-up finds after either.
-/

namespace EquationSheet

/-- A JSON value. -/
inductive Json
  | null
  | bool (b : Bool)
  | int (n : Int)
  | float (x : Binary64)
  | str (s : Units)
  | arr (items : List Json)
  | obj (members : List (Units × Json))
  deriving Inhabited

/-- The members of an object, in order. -/
abbrev Members := List (Units × Json)

namespace Members

/-- The value of a key. -/
def get? (ms : Members) (key : Units) : Option Json := ms.lookup key

/-- Sets the value of a key, which keeps its place if it has one. -/
def put (key : Units) (value : Json) : Members → Members
  | [] => [(key, value)]
  | (k, v) :: rest => if k = key then (k, value) :: rest else (k, v) :: put key value rest

/-- Adds a member behind the others unless its key is there. -/
def putDefault (ms : Members) (key : Units) (value : Json) : Members :=
  match ms.get? key with
  | some _ => ms
  | none => ms ++ [(key, value)]

theorem get?_put (ms : Members) (key k : Units) (value : Json) :
    (put key value ms).get? k = if k = key then some value else ms.get? k := by
  induction ms with
  | nil =>
    by_cases h : k = key
    · simp [put, get?, h]
    · simp [put, get?, List.lookup_cons, List.lookup_nil, beq_false_of_ne h, h]
  | cons m rest ih =>
    obtain ⟨k', v⟩ := m
    simp only [get?] at ih
    by_cases hk : k' = key
    · subst hk
      by_cases h : k = k'
      · simp [put, get?, h]
      · simp [put, get?, List.lookup_cons, beq_false_of_ne h, h]
    · by_cases h : k = k'
      · subst h
        simp [put, get?, hk]
      · simp [put, get?, hk, List.lookup_cons, beq_false_of_ne h, ih]

theorem get?_putDefault (ms : Members) (key k : Units) (value : Json) :
    (ms.putDefault key value).get? k =
      if k = key then some ((ms.get? key).getD value) else ms.get? k := by
  simp only [putDefault]
  split
  · next v h =>
    by_cases hk : k = key
    · subst hk; simp [h]
    · simp [hk]
  · next h =>
    simp only [get?, List.lookup_append] at h ⊢
    by_cases hk : k = key
    · subst hk; simp [h]
    · have hne : (k == key) = false := by simp [hk]
      simp [hk, List.lookup_cons, List.lookup_nil, hne]

/-- The members of a list of pairs in which keys may be repeated: a repeated key keeps its first
place and takes its last value. -/
def ofPairs (pairs : List (Units × Json)) : Members :=
  pairs.foldl (fun ms (key, value) => put key value ms) []

end Members

end EquationSheet
