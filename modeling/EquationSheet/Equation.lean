import EquationSheet.Measure
import EquationSheet.Numeral.Value

/-!
# Equations

A global variable: a name, a finite value in SI units, and the unit it is displayed in. It is read
from and written as `"name" = 5mm`.

* `Equation.ofSI`, `Equation.ofDisplay`: from a value in SI units, and from a displayed magnitude.
* `Equation.scan`: the tokens of an equation, left to right; the first one missing is the error.
* `Equation.parse`, `Equation.format`: text to equation and back.
-/

namespace EquationSheet

/-- A variable with its value in the SI unit of the category of `unit`. -/
structure Equation where
  name : Text
  value : Binary64
  unit : Measure
  isFinite : value.isFinite = true
  deriving DecidableEq

/-- The tokens that carry the meaning of an equation. -/
structure Equation.Tokens where
  name : Text
  magnitude : Binary64
  symbol : Text
  deriving DecidableEq

namespace Equation

/-- An equation with a value in SI units, which has to be finite. -/
def ofSI (name : Text) (value : Binary64) (unit : Measure) : Except EquationError Equation :=
  if h : value.isFinite = true then .ok ⟨name, value, unit, h⟩
  else .error (.ofFault (.infiniteValue name))

/-- An equation with a magnitude in its own unit. -/
def ofDisplay (name : Text) (magnitude : Binary64) (unit : Measure) :
    Except EquationError Equation :=
  ofSI name (unit.toSI magnitude) unit

def category (e : Equation) : Category := e.unit.category

/-- The value in the unit of the equation; it may be infinite. -/
def magnitude (e : Equation) : Binary64 := e.unit.fromSI e.value

/-! ### Reading -/

/-- What a step of the scanner finds and the text behind it, or the fault and the text in front of
which it stands. -/
abbrev Scanned (α : Type) := Except (ParseFault × Text) (α × Text)

/-- One given code point. -/
def expect (c : Char) (fault : ParseFault) : Text → Except (ParseFault × Text) Text
  | [] => .error (fault, [])
  | d :: rest => if d = c then .ok rest else .error (fault, d :: rest)

/-- A letter followed by letters and digits. -/
def scanName : Text → Scanned Text
  | [] => .error (.variableName, [])
  | c :: rest =>
    if c.isAlpha then .ok (c :: rest.takeWhile Char.isAlphanum, rest.dropWhile Char.isAlphanum)
    else .error (.variableName, c :: rest)

/-- A numeral. -/
def scanMagnitude (t : Text) : Scanned Binary64 := (Numeral.read t).mapError (·, t)

/-- At least one letter. -/
def scanSymbol (t : Text) : Scanned Text :=
  match t.takeWhile Char.isAlpha with
  | [] => .error (.unit, t)
  | symbol => .ok (symbol, t.dropWhile Char.isAlpha)

/-- Nothing but the end of the text. -/
def expectEnd : Text → Except (ParseFault × Text) Unit
  | [] => .ok ()
  | rest => .error (.trailingText, rest)

/-- The tokens of a text, with blanks allowed around all of them but not inside the quotes. -/
def scan (t : Text) : Except (ParseFault × Text) Tokens := do
  let t ← expect '"' .openingQuote t.skipBlanks
  let (name, t) ← scanName t
  let t ← expect '"' .closingQuote t
  let t ← expect '=' .equalsSign t.skipBlanks
  let (magnitude, t) ← scanMagnitude t.skipBlanks
  let (symbol, t) ← scanSymbol t.skipBlanks
  expectEnd t.skipBlanks
  pure ⟨name, magnitude, symbol⟩

/-- The equation that the tokens denote. -/
def ofTokens (tokens : Tokens) : Except EquationError Equation := do
  let unit ← Measure.resolve tokens.symbol
  ofDisplay tokens.name tokens.magnitude unit

/-- Reads an equation. An error of the scanner carries the text and the column where it stopped. -/
def parse (t : Text) : Except EquationError Equation :=
  match scan t with
  | .ok tokens => ofTokens tokens
  | .error (fault, rest) => .error (.parse ⟨fault, t, (t.length - rest.length : Nat)⟩)

/-! ### Writing -/

/-- Writes an equation without blanks. -/
def format (e : Equation) : Text :=
  '"' :: (e.name ++ ['"', '='] ++ e.magnitude.toCompactText ++ e.unit.symbol)

end Equation

end EquationSheet
