import EquationSheet.Error
import EquationSheet.Scalar

/-!
# Units

Eleven units of two categories. Each converts to the SI unit of its category, metres or radians, by
one multiplication; degrees are multiplied by pi and divided by 180.

* `Measure.ofSymbol?`, `ofSymbol?_symbol`: a symbol names exactly one unit.
* `Measure.toSI`, `Measure.fromSI`: the conversions, rounded after each operation.
* `Measure.convert`: between two units of one category.
-/

namespace EquationSheet

/-- What a unit measures. -/
inductive Category
  | length
  | angle
  deriving DecidableEq

namespace Category

def name : Category → String
  | length => "Length"
  | angle => "Angle"

/-- The category of a given name. -/
def ofName? (name : String) : Option Category := [length, angle].find? (·.name = name)

/-- The symbol of the unit that values of the category are kept in. -/
def siSymbol : Category → Text
  | length => ['m']
  | angle => ['r', 'a', 'd']

end Category

/-- A unit of length or angle. -/
inductive Measure
  | metre
  | centimetre
  | millimetre
  | micrometre
  | nanometre
  | inch
  | foot
  | mil
  | microinch
  | degree
  | radian
  deriving DecidableEq

namespace Measure

/-- All units, in the order in which they are listed. -/
def all : List Measure :=
  [metre, centimetre, millimetre, micrometre, nanometre, inch, foot, mil, microinch, degree, radian]

theorem mem_all (u : Measure) : u ∈ all := by cases u <;> decide

def symbol : Measure → Text
  | metre => ['m']
  | centimetre => ['c', 'm']
  | millimetre => ['m', 'm']
  | micrometre => ['u', 'm']
  | nanometre => ['n', 'm']
  | inch => ['i', 'n']
  | foot => ['f', 't']
  | mil => ['m', 'i', 'l']
  | microinch => ['u', 'i', 'n']
  | degree => ['d', 'e', 'g']
  | radian => ['r', 'a', 'd']

def category : Measure → Category
  | degree | radian => .angle
  | _ => .length

/-- The unit of a given symbol. -/
def ofSymbol? (symbol : Text) : Option Measure := all.find? (·.symbol = symbol)

theorem ofSymbol?_symbol (u : Measure) : ofSymbol? u.symbol = some u := by cases u <;> decide

theorem symbol_of_ofSymbol? {symbol : Text} {u : Measure} (h : ofSymbol? symbol = some u) :
    u.symbol = symbol := by
  simpa using List.find?_some h

/-- The unit of a given symbol, or the error that names it. -/
def resolve (symbol : Text) : Except EquationError Measure :=
  match ofSymbol? symbol with
  | some u => .ok u
  | none => .error (.unsupportedUnit symbol)

/-- The symbols of the units of a category, in order. -/
def symbolsOf (c : Category) : List Text := (all.filter (·.category = c)).map symbol

/-- A decimal constant. -/
def constant (coefficient : Nat) (exponent : Int) : Binary64 :=
  Decimal.toBinary64 false ⟨coefficient, exponent⟩

/-- The metres in an inch. -/
def metresPerInch : Binary64 := constant 254 (-4)

/-- The binary64 number nearest to pi. -/
def pi : Binary64 := constant 3141592653589793 (-15)

/-- The size of a unit in the SI unit of its category; degrees have none that is a single number. -/
def factor : Measure → Binary64
  | centimetre => constant 1 (-2)
  | millimetre => constant 1 (-3)
  | micrometre => constant 1 (-6)
  | nanometre => constant 1 (-9)
  | inch => metresPerInch
  | foot => constant 3048 (-4)
  | mil => metresPerInch * constant 1 (-3)
  | microinch => metresPerInch * constant 1 (-6)
  | metre | degree | radian => constant 1 0

/-- The degrees in half a turn. -/
def halfTurn : Nat := 180

/-- A magnitude in this unit, in the SI unit. -/
def toSI (u : Measure) (x : Binary64) : Binary64 :=
  match u with
  | degree => x * pi / constant halfTurn 0
  | u => x * u.factor

/-- A magnitude in the SI unit, in this unit. -/
def fromSI (u : Measure) (x : Binary64) : Binary64 :=
  match u with
  | degree => x * constant halfTurn 0 / pi
  | u => x / u.factor

/-- The conversion `toSI` of a scalar. -/
def toSIOf (u : Measure) (v : Scalar) : Except ScalarFault Binary64 := v.operand.map u.toSI

/-- The conversion `fromSI` of a scalar; an integer number of radians is multiplied exactly. -/
def fromSIOf (u : Measure) (v : Scalar) : Except ScalarFault Binary64 :=
  match u with
  | degree => (v.multiple halfTurn).map (· / pi)
  | u => v.operand.map u.fromSI

/-- The units of two symbols, if they are of one category. -/
def resolvePair (source target : Text) : Except EquationError (Measure × Measure) := do
  let u ← resolve source
  let v ← resolve target
  if u.category = v.category then pure (u, v) else throw (.unitMismatch source target)

end Measure

end EquationSheet
