import EquationSheet.Binary64.Decimal

/-!
# The shortest decimal that reads back

For one, two, … seventeen digits the two neighbours of a number on that decimal grid are tried;
the first grid with a neighbour that reads back as the number wins, and of two the nearer one, a
tie going to the even coefficient. The exact expansion stands in where no grid has one, so the
result reads back by construction.

* `neighbours`: the two grid points around the exact expansion.
* `shortest`: the chosen decimal.
-/

namespace EquationSheet.Decimal

/-- How many decimal digits a natural is written with. -/
def digitCount (n : Nat) : Nat := (Nat.toDigits 10 n).length

/-- The grid points below and above an exact decimal once its last `dropped` digits are left out. -/
def neighbours (d : Decimal) (dropped : Nat) : Decimal × Decimal :=
  let q := d.coefficient / Nat.pow 10 dropped
  (⟨q, d.exponent + dropped⟩, ⟨q + 1, d.exponent + dropped⟩)

/-- The lower neighbour is the nearer one, or as near and even. -/
def lowerIsNearer (d : Decimal) (dropped : Nat) : Bool :=
  let gap := Nat.pow 10 dropped
  let r := d.coefficient % gap
  decide (2 * r < gap) || (2 * r == gap && d.coefficient / gap % 2 == 0)

/-- A neighbour on the grid that `reads` accepts, the nearer of two. -/
def pick (reads : Decimal → Bool) (d : Decimal) (dropped : Nat) : Option Decimal :=
  let (lower, upper) := neighbours d dropped
  if lowerIsNearer d dropped then
    if reads lower then some lower else if reads upper then some upper else none
  else if reads upper then some upper else if reads lower then some lower else none

/-- The decimal with the fewest digits that `units * 2 ^ -1074` is read back from. -/
def shortest (units : Nat) (isMagnitude : IsMagnitude units) : Decimal :=
  let d := exact units
  let count := digitCount d.coefficient
  let reads (c : Decimal) : Bool := c.toBinary64 false == .finite false units isMagnitude
  ((List.range' 1 17).findSome? fun digits => pick reads d (count - digits)).getD d

end EquationSheet.Decimal
