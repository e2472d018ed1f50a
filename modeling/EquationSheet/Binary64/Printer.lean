import EquationSheet.Binary64.Shortest
import EquationSheet.Text.Basic

/-!
# Binary64 numbers as text

A number is written with its shortest digits: positional when the leading digit stands for a power
of ten from `10 ^ -4` up to `10 ^ 15`, else with one digit before the point and an exponent of at
least two digits. A style says what stands behind a positional number without a fraction.

* `toText`: whole numbers end in `.0`.
* `toCompactText`: whole numbers end in their last digit.
-/

namespace EquationSheet.Binary64

/-- The decimal digits of a natural. -/
def digits (n : Nat) : Text := Nat.toDigits 10 n

/-- The digits of a coefficient without the zeros at its end. -/
def significantDigits (n : Nat) : Text := ((digits n).reverse.dropWhile (· = '0')).reverse

/-- Positional notation of `0.ds * 10 ^ point`; `wholeTail` follows a number without a fraction. -/
def positional (wholeTail ds : Text) (point : Int) : Text :=
  if point ≤ 0 then '0' :: '.' :: (List.replicate (-point).toNat '0' ++ ds)
  else
    let whole := point.toNat
    if ds.length ≤ whole then ds ++ List.replicate (whole - ds.length) '0' ++ wholeTail
    else ds.take whole ++ '.' :: ds.drop whole

/-- An exponent is written with its sign and at least two digits. -/
def exponentText (e : Int) : Text :=
  let ds := digits e.natAbs
  (if e < 0 then '-' else '+') :: (List.replicate (2 - ds.length) '0' ++ ds)

/-- Notation of `0.ds * 10 ^ point` with one digit before the point. -/
def scientific (ds : Text) (point : Int) : Text :=
  ds.take 1 ++ (if ds.length ≤ 1 then [] else '.' :: ds.drop 1) ++ 'e' :: exponentText (point - 1)

/-- The text of a decimal without its sign. -/
def decimalText (wholeTail : Text) (d : Decimal) : Text :=
  let all := digits d.coefficient
  let point := all.length + d.exponent
  let ds := significantDigits d.coefficient
  if ds.isEmpty then '0' :: wholeTail
  else if -4 < point ∧ point ≤ 16 then positional wholeTail ds point
  else scientific ds point

/-- The text of a number in the style given by `wholeTail`. -/
def textWith (wholeTail : Text) : Binary64 → Text
  | .finite negative units h =>
    (if negative then ['-'] else []) ++ decimalText wholeTail (Decimal.shortest units h)
  | .infinite negative => (if negative then ['-'] else []) ++ ['i', 'n', 'f']
  | .nan => ['n', 'a', 'n']

/-- The text with a fraction for whole numbers too, as in `5.0`. -/
def toText : Binary64 → Text := textWith ['.', '0']

/-- The text with whole numbers bare, as in `5`. -/
def toCompactText : Binary64 → Text := textWith []

end EquationSheet.Binary64
