import EquationSheet.Fault
import EquationSheet.Numeral.Value

/-!
# Numerals at given columns

A column that is handed in from outside may be any integer, but only the integers of 64 bits, sign
included, are columns.

* `Numeral.matchFrom`: the number at a column, as `Numeral.matchAt` finds it.
-/

namespace EquationSheet.Numeral

/-- The integer fits into 64 bits. -/
def isColumn (n : Int) : Bool :=
  decide (-9223372036854775808 ≤ n) && decide (n < 9223372036854775808)

/-- The number at a column given as an integer, and the column behind it. -/
def matchFrom (t : Text) (column : Int) : Except Fault (Binary64 × Nat) :=
  if isColumn column then (matchAt t column).mapError fun e => .equation (.parse e)
  else .error (.scalar .tooLarge)

end EquationSheet.Numeral
