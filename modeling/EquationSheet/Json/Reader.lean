import EquationSheet.Fault
import EquationSheet.Json.Basic
import EquationSheet.Numeral.Basic

/-!
# Reading JSON

The strict grammar, with three names for the numbers that are not finite. A number with a fraction
or an exponent is a binary64 number, any other an integer, refused when it is longer than integers
are ever written. In an object a repeated key keeps its first place and takes its last value.

* `Json.readValue`: the value at the start of a text, and the rest. Its first argument bounds the
  recursion and is spent by one at every item; its second one bounds the nesting.
* `Json.parseWithin`, `Json.parse`: a whole text as a value. Of two faults the one further left
  counts.
-/

namespace EquationSheet.Json

/-- Why a text is not read as a value. -/
inductive ReadFault
  /-- the text does not follow the grammar -/
  | malformed
  /-- arrays and objects are nested on more levels than are gone down -/
  | tooDeep
  deriving DecidableEq

/-- The blanks between tokens. -/
def isBlank (c : Char) : Bool := c == ' ' || c == '\t' || c == '\n' || c == '\r'

def skipBlanks (t : Text) : Text := t.dropWhile isBlank

/-- The value of a hexadecimal digit. -/
def hexValue? (c : Char) : Option Nat :=
  if c.isDigit then some (c.toNat - 48)
  else if 'a' ≤ c ∧ c ≤ 'f' then some (c.toNat - 87)
  else if 'A' ≤ c ∧ c ≤ 'F' then some (c.toNat - 55)
  else none

/-- The unit of four hexadecimal digits. -/
def hexUnit? (a b c d : Char) : Option UInt16 := do
  let a ← hexValue? a
  let b ← hexValue? b
  let c ← hexValue? c
  let d ← hexValue? d
  pure (UInt16.ofNat (((a * 16 + b) * 16 + c) * 16 + d))

/-- The unit that a letter behind a backslash stands for. -/
def escapeUnit? (c : Char) : Option UInt16 :=
  if c = '"' then some 34
  else if c = '\\' then some 92
  else if c = '/' then some 47
  else if c = 'b' then some 8
  else if c = 'f' then some 12
  else if c = 'n' then some 10
  else if c = 'r' then some 13
  else if c = 't' then some 9
  else none

/-- The units up to the closing quote, and the text behind it. -/
def readString : Text → Option (Units × Text)
  | [] => none
  | '"' :: rest => some ([], rest)
  | '\\' :: 'u' :: a :: b :: c :: d :: rest => do
    let u ← hexUnit? a b c d
    let (s, rest) ← readString rest
    pure (u :: s, rest)
  | '\\' :: c :: rest => do
    let u ← escapeUnit? c
    let (s, rest) ← readString rest
    pure (u :: s, rest)
  | c :: rest =>
    if c.toNat < 32 || c == '\\' then none
    else do
      let (s, rest) ← readString rest
      pure (Text.charUnits c ++ s, rest)

/-- The digits of an integer: a zero alone, or digits that start with another one. -/
def readWhole : Text → Option (Text × Text)
  | '0' :: rest => some (['0'], rest)
  | t =>
    let (digits, rest) := Numeral.scanDigits t
    if digits.isEmpty then none else some (digits, rest)

/-- A point with at least one digit behind it, if there is one. -/
def readFraction (t : Text) : Option Text × Text :=
  match Numeral.scanFraction t with
  | (some (d :: ds), rest) => (some (d :: ds), rest)
  | _ => (none, t)

/-- A number, and the rest. -/
def readNumber (t : Text) : Option (Json × Text) :=
  let (sign, t) : Text × Text := match t with
    | '-' :: rest => (['-'], rest)
    | t => ([], t)
  match readWhole t with
  | none => none
  | some (whole, t) =>
    let (fraction, t) := readFraction t
    let (exponent, t) := Numeral.scanExponent t
    let numeral : Numeral := ⟨sign, whole, fraction, exponent⟩
    if fraction.isSome || exponent.isSome then
      some (float (numeral.decimal.toBinary64 (sign == ['-'])), t)
    else (Scalar.readInt (sign ++ whole)).toOption.map fun n => (int n, t)

/-- The words of the grammar. -/
def words : List (Text × Json) :=
  [("null".toList, null), ("true".toList, bool true), ("false".toList, bool false),
   ("NaN".toList, float .nan), ("Infinity".toList, float (.infinite false)),
   ("-Infinity".toList, float (.infinite true))]

/-- A word, and the rest. -/
def readWord (t : Text) : Option (Json × Text) :=
  (words.find? fun (word, _) => word.isPrefixOf t).map fun (word, j) => (j, t.drop word.length)

/-- What a token reader finds, or that there is no such token. -/
def found : Option α → Except ReadFault α
  | some a => .ok a
  | none => .error .malformed

mutual

/-- The value at the start of a text, and the rest. -/
def readValue : Nat → Nat → Text → Except ReadFault (Json × Text)
  | 0, _, _ => .error .malformed
  | _, _, [] => .error .malformed
  | fuel + 1, levels, c :: rest =>
    if c = '[' then
      match levels with
      | 0 => .error .tooDeep
      | levels + 1 =>
        match skipBlanks rest with
        | ']' :: rest => .ok (arr [], rest)
        | rest => (readItems fuel levels rest).map fun (items, rest) => (arr items, rest)
    else if c = '{' then
      match levels with
      | 0 => .error .tooDeep
      | levels + 1 =>
        match skipBlanks rest with
        | '}' :: rest => .ok (obj [], rest)
        | rest => (readMembers fuel levels rest).map fun (pairs, rest) =>
            (obj (Members.ofPairs pairs), rest)
    else if c = '"' then found ((readString rest).map fun (s, rest) => (str s, rest))
    else found ((readWord (c :: rest)).or (readNumber (c :: rest)))

/-- The items up to the closing bracket, and the text behind it. -/
def readItems : Nat → Nat → Text → Except ReadFault (List Json × Text)
  | 0, _, _ => .error .malformed
  | fuel + 1, levels, t => do
    let (item, t) ← readValue fuel levels t
    match skipBlanks t with
    | ']' :: rest => .ok ([item], rest)
    | ',' :: rest => do
      let (items, rest) ← readItems fuel levels (skipBlanks rest)
      pure (item :: items, rest)
    | _ => .error .malformed

/-- The members up to the closing brace, and the text behind it. -/
def readMembers : Nat → Nat → Text → Except ReadFault (List (Units × Json) × Text)
  | 0, _, _ => .error .malformed
  | _, _, [] => .error .malformed
  | fuel + 1, levels, quote :: t =>
    if quote = '"' then do
      let (key, t) ← found (readString t)
      match skipBlanks t with
      | ':' :: t => do
        let (value, t) ← readValue fuel levels (skipBlanks t)
        match skipBlanks t with
        | '}' :: rest => .ok ([(key, value)], rest)
        | ',' :: rest => do
          let (members, rest) ← readMembers fuel levels (skipBlanks rest)
          pure ((key, value) :: members, rest)
        | _ => .error .malformed
      | _ => .error .malformed
    else .error .malformed

end

/-- A whole text as a value, with blanks around it, nested on at most `levels` levels. -/
def parseWithin (levels : Nat) (t : Text) : Except ReadFault Json :=
  match readValue (2 * t.length + 2) levels (skipBlanks t) with
  | .ok (j, rest) => if (skipBlanks rest).isEmpty then .ok j else .error .malformed
  | .error fault => .error fault

/-- A whole text as a value, on the usual levels. -/
def parse (t : Text) : Except ReadFault Json := parseWithin usualLevels t

end EquationSheet.Json
