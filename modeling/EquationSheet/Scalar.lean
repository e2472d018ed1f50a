import EquationSheet.Binary64.Printer
import EquationSheet.Numeral.Basic
import EquationSheet.Text.DecimalDigit
import EquationSheet.Text.Lowercase
import EquationSheet.Text.Trim

/-!
# Scalars

A value as it is handed in from outside: an integer of any size, a binary64 number, a text, a truth
value, or nothing.

* `operand`: the number a scalar stands for in arithmetic; texts stand for none.
* `toBinary64`: the number a scalar is converted to; texts are read.
* `text`: how a scalar is written; `numberText` leaves whole numbers bare.
-/

namespace EquationSheet

/-- A value of one of the basic kinds. -/
inductive Scalar
  | int (n : Int)
  | float (x : Binary64)
  | text (t : Text)
  | bool (b : Bool)
  | absent
  deriving DecidableEq

/-- Why a scalar has no number or no text. -/
inductive ScalarFault
  /-- the integer lies beyond the largest finite number -/
  | tooLarge
  /-- the scalar is of a kind that is no number -/
  | notANumber
  /-- the text is not the text of a number -/
  | unreadable
  /-- the integer has more digits than are ever written -/
  | tooManyDigits
  deriving DecidableEq

namespace Scalar

/-- The longest integer that is written or read, in decimal digits. -/
def maxDigits : Nat := 4300

/-- An integer rounded to binary64. -/
def roundInt (n : Int) : Except ScalarFault Binary64 :=
  match Binary64.ofInt? n with
  | some x => .ok x
  | none => .error .tooLarge

/-- A truth value counts as zero or one. -/
def ofBool (b : Bool) : Int := if b then 1 else 0

/-- The number that a scalar stands for in arithmetic. -/
def operand : Scalar → Except ScalarFault Binary64
  | int n => roundInt n
  | float x => .ok x
  | bool b => roundInt (ofBool b)
  | text _ | absent => .error .notANumber

/-- The number a scalar stands for, multiplied by a natural number. Integers are multiplied before
they are rounded. -/
def multiple (factor : Nat) : Scalar → Except ScalarFault Binary64
  | int n => roundInt (n * factor)
  | bool b => roundInt (ofBool b * factor)
  | float x => (roundInt factor).map (x * ·)
  | text _ | absent => .error .notANumber

/-! ### Reading numbers from texts -/

/-- Reads an integer from its digits behind an optional sign, unless there are too many digits. -/
def readInt (t : Text) : Except ScalarFault Int :=
  let (sign, digits) := Numeral.scanSign t
  if maxDigits < digits.length then .error .tooManyDigits
  else
    let n : Int := Nat.ofDigitChars 10 digits 0
    .ok (if sign = ['-'] then -n else n)

/-- Blanks around the text of a number. -/
def isMargin (c : Char) : Bool :=
  Text.isWhitespace c && !(decide (28 ≤ c.toNat) && decide (c.toNat ≤ 31))

/-- Digits of other scripts read as ASCII digits. -/
def asciiDigit (c : Char) : Char :=
  if c.toNat < 128 then c
  else match Text.digitValue? c with
    | some value => Char.ofNat (48 + value)
    | none => c

/-- Removes the underscores of a text in which each stands between two digits; `afterDigit` tells
whether a digit precedes. -/
def withoutUnderscores : Bool → Text → Option Text
  | _, [] => some []
  | afterDigit, c :: rest =>
    if c = '_' then
      match rest with
      | d :: _ => if afterDigit && d.isDigit then withoutUnderscores false rest else none
      | [] => none
    else (withoutUnderscores c.isDigit rest).map (c :: ·)

/-- The names of the numbers that are not finite, in lower case. -/
def specialName? (negative : Bool) (t : Text) : Option Binary64 :=
  if t = ['i', 'n', 'f'] || t = ['i', 'n', 'f', 'i', 'n', 'i', 't', 'y'] then
    some (.infinite negative)
  else if t = ['n', 'a', 'n'] then some .nan
  else none

/-- Reads a number from a whole text: blanks around it, digits of any script, single underscores
between digits, and the names of the numbers that are not finite. -/
def readText (t : Text) : Except ScalarFault Binary64 :=
  match withoutUnderscores false ((Text.trimBy isMargin t).map asciiDigit) with
  | none => .error .unreadable
  | some t =>
    let (n, rest) := Numeral.scan t
    if rest.isEmpty && !n.mantissa.isEmpty then .ok (n.decimal.toBinary64 (n.sign == ['-']))
    else
      let (sign, name) := Numeral.scanSign t
      match specialName? (sign == ['-']) (name.map Char.toLower) with
      | some x => .ok x
      | none => .error .unreadable

/-- The number a scalar is converted to. -/
def toBinary64 : Scalar → Except ScalarFault Binary64
  | text t => readText t
  | v => v.operand

/-! ### Writing -/

/-- An integer in decimal, unless it is too long to be written. -/
def intText (n : Int) : Except ScalarFault Text :=
  let digits := Nat.toDigits 10 n.natAbs
  if maxDigits < digits.length then .error .tooManyDigits
  else .ok (if n < 0 then '-' :: digits else digits)

def boolText (b : Bool) : Text := if b then ['T', 'r', 'u', 'e'] else ['F', 'a', 'l', 's', 'e']

/-- The text of a scalar; `float` says how numbers are written. -/
def textWith (float : Binary64 → Text) : Scalar → Except ScalarFault Text
  | int n => intText n
  | .float x => .ok (float x)
  | text t => .ok t
  | bool b => .ok (boolText b)
  | absent => .ok ['N', 'o', 'n', 'e']

/-- The text of a scalar, whole numbers with their fraction. -/
def toText : Scalar → Except ScalarFault Text := textWith Binary64.toText

/-- The text of a scalar as a value of an equation, whole numbers bare. -/
def numberText : Scalar → Except ScalarFault Text := textWith Binary64.toCompactText

end Scalar

end EquationSheet
