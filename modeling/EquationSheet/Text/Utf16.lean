import EquationSheet.Text.Basic

/-!
# UTF-16 units

The strings of a JSON text are sequences of UTF-16 units, since an escape names one unit and may
name half of a surrogate pair without the other half.

* `toUtf16`: the units of a text.
* `ofUtf16?`: the text of a sequence of units, unless a surrogate stands alone.
* `characters`: the units grouped into code points, a lone surrogate being one of its own.
-/

namespace EquationSheet

/-- A sequence of UTF-16 units. -/
abbrev Units := List UInt16

namespace Text

/-- The units of a code point. -/
def charUnits (c : Char) : Units :=
  let n := c.toNat
  if n < 65536 then [UInt16.ofNat n]
  else [UInt16.ofNat (55296 + (n - 65536) / 1024), UInt16.ofNat (56320 + (n - 65536) % 1024)]

def toUtf16 (t : Text) : Units := t.flatMap charUnits

def isHighSurrogate (u : UInt16) : Bool := decide (55296 ≤ u.toNat) && decide (u.toNat < 56320)

def isLowSurrogate (u : UInt16) : Bool := decide (56320 ≤ u.toNat) && decide (u.toNat < 57344)

/-- The units in groups that each make up one code point. -/
def characters : Units → List Units
  | [] => []
  | [u] => [[u]]
  | u :: v :: rest =>
    if isHighSurrogate u && isLowSurrogate v then [u, v] :: characters rest
    else [u] :: characters (v :: rest)

/-- The code point of a group of units. -/
def ofUnits? : Units → Option Char
  | [u] => if isHighSurrogate u || isLowSurrogate u then none else some (Char.ofNat u.toNat)
  | [u, v] => some (Char.ofNat (65536 + (u.toNat - 55296) * 1024 + (v.toNat - 56320)))
  | _ => none

/-- The text of a sequence of units. -/
def ofUtf16? (s : Units) : Option Text := (characters s).mapM ofUnits?

end Text

end EquationSheet
