import EquationSheet.Equation
import EquationSheet.Text.Trim

/-!
# Looking up variables

A slot is read at its equals signs: the segment before the first names the variable, the one
behind it is its value. Neither has to be well formed; only a slot without an equals sign is
refused.

* `entry`: the name and the value text of a slot.
* `entries`: one row per name, in order of first occurrence, with the value of the last slot.
* `findSlot`: the first slot of a name.
* `getOne`, `names`, `equationOf`, `equations`: what callers ask for.
-/

namespace EquationSheet.Store

/-- The name that the left side of a slot stands for, without whitespace, quotes and the whitespace
inside the quotes. -/
def nameOf (segment : Text) : Text := ((segment.trim).trimBy (· == '"')).trim

/-- The segments of a slot, the first one and the others, of which there has to be one. -/
def split (index : Nat) (slot : Text) : Except EquationError (Text × Text × List Text) :=
  match slot.segments '=' with
  | left :: value :: more => .ok (left, value, more)
  | _ => .error (.parse ⟨.slotWithoutEquals index, slot, slot.length⟩)

/-- The name and the value text of a slot. -/
def entry (index : Nat) (slot : Text) : Except EquationError (Text × Text) :=
  (split index slot).map fun (left, value, _) => (nameOf left, value.trim)

/-- Adds a row, in place of the one with its name if there is one. -/
def putRow (row : Text × Text) : List (Text × Text) → List (Text × Text)
  | [] => [row]
  | r :: rest => if r.1 = row.1 then row :: rest else r :: putRow row rest

/-- The name and value text of each slot, the first of them at the given index. -/
def rowsFrom (index : Nat) : List Text → Except EquationError (List (Text × Text))
  | [] => .ok []
  | slot :: rest => do
    let row ← entry index slot
    let rows ← rowsFrom (index + 1) rest
    pure (row :: rows)

/-- All variables with their value texts. -/
def entries (slots : List Text) : Except EquationError (List (Text × Text)) :=
  (rowsFrom 0 slots).map fun rows => rows.foldl (fun table row => putRow row table) []

/-- The names of all variables. -/
def names (slots : List Text) : Except EquationError (List Text) :=
  (entries slots).map fun rows => rows.map Prod.fst

/-- The value text of a variable. -/
def getOne (slots : List Text) (name : Text) : Except EquationError (Option Text) :=
  (entries slots).map fun rows => rows.lookup name

/-- A slot that was looked for: its index, its text and its value text. -/
structure Found where
  index : Nat
  slot : Text
  value : Text
  deriving DecidableEq

/-- The first slot of a name, the first slot of all being at the given index. All slots before it
need an equals sign. -/
def findFrom (name : Text) (index : Nat) : List Text → Except EquationError (Option Found)
  | [] => .ok none
  | slot :: rest =>
    match entry index slot with
    | .error e => .error e
    | .ok (n, value) =>
      if n = name then .ok (some ⟨index, slot, value⟩) else findFrom name (index + 1) rest

/-- The first slot of a name. -/
def findSlot (slots : List Text) (name : Text) : Except EquationError (Option Found) :=
  findFrom name 0 slots

/-- The equation in the first slot of a name. -/
def equationOf (slots : List Text) (name : Text) : Except EquationError (Option Equation) :=
  match findSlot slots name with
  | .error e => .error e
  | .ok none => .ok none
  | .ok (some found) => (Equation.parse found.slot).map some

/-- The equations in all slots. -/
def equations (slots : List Text) : Except EquationError (List Equation) :=
  slots.mapM Equation.parse

end EquationSheet.Store
