import EquationSheet.Binary64.Basic

/-!
# Decimal numbers as binary64

A decimal is a natural coefficient times a power of ten. `ofDecimal` gives the nearest binary64
number; exponents far outside the format are decided by size alone, so that reading `1e999999999` is
no more work than reading `1e9`.

* `Decimal.toBinary64`: correctly rounded, with the sign kept on zero.
* `exact`: the decimal a finite number is equal to.
-/

namespace EquationSheet

/-- The number `coefficient * 10 ^ exponent`. -/
structure Decimal where
  coefficient : Nat
  exponent : Int
  deriving DecidableEq

namespace Decimal

/-- At least `10 ^ 310`, hence beyond the largest finite number. -/
def IsHuge (d : Decimal) : Bool := d.coefficient != 0 && decide (309 < d.exponent)

/-- Below a quarter of the smallest positive number: `coefficient < 2 ^ (log2 coefficient + 1)` and
`10 ^ k ≥ 2 ^ (3 * k)`. -/
def IsTiny (d : Decimal) : Bool :=
  d.coefficient == 0 || decide ((d.coefficient.log2 : Int) + 1077 ≤ 3 * -d.exponent)

/-- The binary64 number nearest to a decimal with a sign. -/
def toBinary64 (negative : Bool) (d : Decimal) : Binary64 :=
  if d.IsHuge then .infinite negative
  else if d.IsTiny then .zero negative
  else .ofQuotient negative (d.coefficient * Nat.pow 10 d.exponent.toNat * Binary64.one)
    (Nat.pow 10 (-d.exponent).toNat)

/-- The decimal equal to `units * 2 ^ -1074`, as `2 ^ -1074 = 5 ^ 1074 * 10 ^ -1074`. -/
def exact (units : Nat) : Decimal := ⟨units * Nat.pow 5 1074, -1074⟩

end Decimal

end EquationSheet
