import EquationSheet.Error
import EquationSheet.Numeral.Basic

/-!
# The value of a numeral

* `Numeral.value`: the number; refused without a digit before the exponent, or beyond the largest
  finite number.
* `Numeral.read`, `Numeral.matchAt`: the number at the start of a text, and at a column of it.
* `Numeral.parse`: a whole text as a numeral.
* `Numeral.parseStrict`: a whole text as an unsigned literal with digits on both sides of the
  point.
-/

namespace EquationSheet.Numeral

/-- The number a numeral denotes, rounded to the nearest binary64 number. -/
def value (n : Numeral) : Except ParseFault Binary64 :=
  if n.mantissa.isEmpty then .error .mantissa
  else
    match n.decimal.toBinary64 (n.sign == ['-']) with
    | .finite s u h => .ok (.finite s u h)
    | _ => .error .overflow

/-- The number at the start of a text, and the rest. -/
def read (t : Text) : Except ParseFault (Binary64 × Text) :=
  let (n, rest) := scan t
  if n.text.isEmpty then .error .number
  else n.value.map (·, rest)

/-- The text from a column on; a column before the start means the start, one past the end the
end. -/
def suffixAt (t : Text) (column : Int) : Text := t.drop column.toNat

/-- The number at a column, and the column behind it. -/
def matchAt (t : Text) (column : Int) : Except ParseError (Binary64 × Nat) :=
  match read (suffixAt t column) with
  | .ok (x, rest) => .ok (x, t.length - rest.length)
  | .error fault => .error ⟨fault, t, column⟩

/-- A whole text as a numeral. -/
def parse (t : Text) : Except ParseError Binary64 :=
  let (n, rest) := scan t
  if t.isEmpty || !rest.isEmpty then .error ⟨.mantissa, t, 0⟩
  else n.value.mapError (⟨·, t, 0⟩)

/-! ### Strict literals -/

/-- Nothing, or an unsigned exponent up to the end. -/
def isStrictExponent : Text → Bool
  | [] => true
  | c :: digits => isExponentMarker c && !digits.isEmpty && digits.all Char.isDigit

/-- Nothing, or a point, at least one digit, and what may follow those. -/
def isStrictFraction : Text → Bool
  | [] => true
  | c :: rest =>
    c == '.' && !(scanDigits rest).1.isEmpty && isStrictExponent (scanDigits rest).2

/-- At least one digit, and what may follow those. -/
def isStrict (t : Text) : Bool := !(scanDigits t).1.isEmpty && isStrictFraction (scanDigits t).2

/-- A whole text as a strict literal: no sign, digits on both sides of a point, an exponent only
behind a fraction. -/
def parseStrict (t : Text) : Except ParseError Binary64 :=
  if isStrict t then (scan t).1.value.mapError (⟨·, t, 0⟩)
  else .error ⟨.strictNumeral, t, 0⟩

end EquationSheet.Numeral
