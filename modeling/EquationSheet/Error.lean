import EquationSheet.Text.Quoted

/-!
# What can be wrong with an equation

A cause says what was expected; an error adds the text and the column where it was expected.

* `ParseFault`: the causes, each of one of three kinds.
* `ParseError.message`: the cause, and the place unless the text is empty.
* `EquationError`: a malformed text, an unknown unit, or two units of different categories.
-/

namespace EquationSheet

/-- Why a text was refused. -/
inductive ParseFault
  | openingQuote
  | variableName
  | closingQuote
  | equalsSign
  | number
  | mantissa
  | overflow
  | strictNumeral
  | unit
  | trailingText
  | slotWithoutEquals (index : Nat)
  | slotWithoutValue (name : Text)
  | infiniteValue (name : Text)
  | infiniteNewValue (name : Text)
  deriving DecidableEq

/-- The three kinds of malformed text. -/
inductive FaultKind
  | unexpectedToken
  | missingSeparator
  | malformedNumeral
  deriving DecidableEq

namespace ParseFault

def kind : ParseFault → FaultKind
  | openingQuote | variableName | closingQuote | unit | trailingText => .unexpectedToken
  | equalsSign | slotWithoutEquals _ => .missingSeparator
  | number | mantissa | overflow | strictNumeral => .malformedNumeral
  | slotWithoutValue _ | infiniteValue _ | infiniteNewValue _ => .malformedNumeral

def message : ParseFault → String
  | openingQuote => "Expected '\"' before the variable name"
  | variableName => "Expected a variable name"
  | closingQuote => "Expected '\"' after the variable name"
  | equalsSign => "Expected '='"
  | number => "Expected a number"
  | mantissa => "Invalid floating point value"
  | overflow => "Value is not a finite number"
  | strictNumeral => "Invalid numeric literal"
  | unit => "Expected a unit"
  | trailingText => "Unexpected text after the unit"
  | slotWithoutEquals index => "Equation " ++ toString index ++ " has no '='"
  | slotWithoutValue name => "Equation \"" ++ String.ofList name ++ "\" has no value"
  | infiniteValue name => "Value of \"" ++ String.ofList name ++ "\" is not a finite number"
  | infiniteNewValue name => "Value for \"" ++ String.ofList name ++ "\" is not a finite number"

end ParseFault

/-- A malformed text and the column at which it goes wrong. Faults of a value that was never read
from a text carry the empty text. -/
structure ParseError where
  fault : ParseFault
  text : Text
  position : Int
  deriving DecidableEq

def ParseError.message (e : ParseError) : String :=
  if e.text.isEmpty then e.fault.message
  else e.fault.message ++ " (at column " ++ toString e.position ++ " of " ++
    String.ofList e.text.quoted ++ ")"

/-- Why an equation could not be read, built or converted. -/
inductive EquationError
  | parse (error : ParseError)
  | unsupportedUnit (symbol : Text)
  | unitMismatch (source target : Text)
  deriving DecidableEq

namespace EquationError

/-- A fault of a value that was not read from a text. -/
def ofFault (fault : ParseFault) : EquationError := .parse ⟨fault, [], 0⟩

def message : EquationError → String
  | parse error => error.message
  | unsupportedUnit symbol => "Not supported " ++ String.ofList symbol
  | unitMismatch source target =>
    "Cannot convert " ++ String.ofList source ++ " to " ++ String.ofList target

end EquationError

end EquationSheet
