import EquationSheet.Binary64.Decimal
import EquationSheet.Text.Basic

/-!
# Numerals

A numeral is an optional sign, digits, an optional point with digits, and an optional exponent.
The scanner is greedy and never looks back: it takes each part where it can, and a part that is
not there takes nothing. Digits are ASCII digits and blanks are never skipped.

* `Numeral.scan`: the longest numeral shape at the start of a text, and the rest.
* `scan_text`: scanning loses nothing.
* `Numeral.decimal`: the decimal that a numeral denotes.
-/

namespace EquationSheet

/-- The exponent of a numeral: its marker, sign and digits. -/
structure Exponent where
  marker : Char
  sign : Text
  digits : Text
  deriving DecidableEq

/-- The parts of a numeral shape; a missing part is empty or `none`. -/
structure Numeral where
  sign : Text
  whole : Text
  fraction : Option Text
  exponent : Option Exponent
  deriving DecidableEq

def Exponent.text (e : Exponent) : Text := e.marker :: (e.sign ++ e.digits)

def Exponent.value (e : Exponent) : Int :=
  let n : Int := Nat.ofDigitChars 10 e.digits 0
  if e.sign = ['-'] then -n else n

namespace Numeral

/-- The digits behind the point. -/
def fractionDigits (n : Numeral) : Text := n.fraction.getD []

/-- A fraction as it was written. -/
def fractionText : Option Text → Text
  | none => []
  | some digits => '.' :: digits

/-- An exponent as it was written. -/
def exponentText : Option Exponent → Text
  | none => []
  | some e => e.text

/-- The numeral as it was written. -/
def text (n : Numeral) : Text :=
  n.sign ++ n.whole ++ fractionText n.fraction ++ exponentText n.exponent

/-- All digits before the exponent. -/
def mantissa (n : Numeral) : Text := n.whole ++ n.fractionDigits

def exponentValue (n : Numeral) : Int :=
  match n.exponent with
  | none => 0
  | some e => e.value

/-- The decimal a numeral denotes, up to its sign. -/
def decimal (n : Numeral) : Decimal :=
  ⟨Nat.ofDigitChars 10 n.mantissa 0, n.exponentValue - n.fractionDigits.length⟩

/-! ### Scanning -/

/-- An optional sign and the rest. -/
def scanSign : Text → Text × Text
  | '+' :: rest => (['+'], rest)
  | '-' :: rest => (['-'], rest)
  | rest => ([], rest)

/-- The digits at the start and the rest. -/
def scanDigits (t : Text) : Text × Text := (t.takeWhile Char.isDigit, t.dropWhile Char.isDigit)

/-- A point with the digits behind it, if there is one. -/
def scanFraction : Text → Option Text × Text
  | '.' :: rest => (some (scanDigits rest).1, (scanDigits rest).2)
  | rest => (none, rest)

/-- The letter that opens an exponent. -/
def isExponentMarker (c : Char) : Bool := c == 'e' || c == 'E'

/-- An exponent, if there is one; a marker without digits behind it opens none. -/
def scanExponent : Text → Option Exponent × Text
  | [] => (none, [])
  | c :: rest =>
    let (sign, unsigned) := scanSign rest
    let (digits, left) := scanDigits unsigned
    if isExponentMarker c && !digits.isEmpty then (some ⟨c, sign, digits⟩, left)
    else (none, c :: rest)

/-- The longest numeral shape at the start of a text, and the rest. -/
def scan (t : Text) : Numeral × Text :=
  let (sign, t) := scanSign t
  let (whole, t) := scanDigits t
  let (fraction, t) := scanFraction t
  let (exponent, t) := scanExponent t
  (⟨sign, whole, fraction, exponent⟩, t)

theorem scanSign_append (t : Text) : (scanSign t).1 ++ (scanSign t).2 = t := by
  unfold scanSign
  split <;> rfl

theorem scanDigits_append (t : Text) : (scanDigits t).1 ++ (scanDigits t).2 = t :=
  List.takeWhile_append_dropWhile

theorem scanFraction_append (t : Text) :
    fractionText (scanFraction t).1 ++ (scanFraction t).2 = t := by
  unfold scanFraction
  split
  · simp only [fractionText, List.cons_append, scanDigits_append]
  · rfl

theorem scanExponent_append (t : Text) :
    exponentText (scanExponent t).1 ++ (scanExponent t).2 = t := by
  cases t with
  | nil => rfl
  | cons c rest =>
    simp only [scanExponent]
    split
    · simp only [exponentText, Exponent.text, List.cons_append, List.append_assoc,
        scanDigits_append, scanSign_append]
    · rfl

/-- **Scanning loses nothing**: the numeral and the rest make up the text. -/
theorem scan_text (t : Text) : (scan t).1.text ++ (scan t).2 = t := by
  simp only [scan, text, List.append_assoc, scanExponent_append, scanFraction_append,
    scanDigits_append, scanSign_append]

end Numeral

end EquationSheet
