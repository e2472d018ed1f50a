import EquationSheet.Binary64.Printer
import EquationSheet.Json.Basic
import EquationSheet.Text.Quoted

/-!
# JSON texts

A value is written on one line, or with each member and item on a line of its own, indented by two
spaces a level. Texts hold plain ASCII only: other units are written as `\u` escapes.

* `Json.compact`: on one line.
* `Json.indented`: over several lines; empty arrays and objects stay on one.
* `Json.cutOff?`, `Json.indentedWithin`: what is written of a value where the levels may run out.
* `write_append`: a value is written in front of a text without a look at it.
-/

namespace EquationSheet.Json

/-- How the parts of arrays and objects are set apart. -/
inductive Layout
  | oneLine
  | manyLines
  deriving DecidableEq

/-- A line feed and the indentation of a level, on many lines only. -/
def Layout.lineBreak (l : Layout) (depth : Nat) : Text :=
  match l with
  | oneLine => []
  | manyLines => '\n' :: List.replicate (2 * depth) ' '

/-- What stands between two items of a level. -/
def Layout.separator (l : Layout) (depth : Nat) : Text :=
  match l with
  | oneLine => [',', ' ']
  | manyLines => ',' :: manyLines.lineBreak depth

/-- One unit between quotes. -/
def unitText (u : UInt16) : Text :=
  if u = 34 then ['\\', '"']
  else if u = 92 then ['\\', '\\']
  else if u = 10 then ['\\', 'n']
  else if u = 13 then ['\\', 'r']
  else if u = 9 then ['\\', 't']
  else if u = 12 then ['\\', 'f']
  else if u = 8 then ['\\', 'b']
  else if 32 ≤ u ∧ u < 127 then [Char.ofNat u.toNat]
  else '\\' :: 'u' :: Text.hexadecimal 4 u.toNat

def stringText (s : Units) : Text := '"' :: (s.flatMap unitText ++ ['"'])

def intText (n : Int) : Text :=
  let digits := Nat.toDigits 10 n.natAbs
  if n < 0 then '-' :: digits else digits

/-- Numbers that are not finite are written by name. -/
def floatText : Binary64 → Text
  | .nan => ['N', 'a', 'N']
  | .infinite false => "Infinity".toList
  | .infinite true => "-Infinity".toList
  | x => x.toText

mutual

/-- Writes a value on a level in front of a text. -/
def write (l : Layout) (depth : Nat) : Json → Text → Text
  | null, rest => 'n' :: 'u' :: 'l' :: 'l' :: rest
  | bool true, rest => 't' :: 'r' :: 'u' :: 'e' :: rest
  | bool false, rest => 'f' :: 'a' :: 'l' :: 's' :: 'e' :: rest
  | int n, rest => intText n ++ rest
  | float x, rest => floatText x ++ rest
  | str s, rest => stringText s ++ rest
  | arr [], rest => '[' :: ']' :: rest
  | arr (item :: more), rest =>
    '[' :: (l.lineBreak (depth + 1) ++ write l (depth + 1) item
      (writeItems l (depth + 1) more (l.lineBreak depth ++ ']' :: rest)))
  | obj [], rest => '{' :: '}' :: rest
  | obj ((key, value) :: more), rest =>
    '{' :: (l.lineBreak (depth + 1) ++ (stringText key ++ ':' :: ' ' :: write l (depth + 1) value
      (writeMembers l (depth + 1) more (l.lineBreak depth ++ '}' :: rest))))

/-- Writes the items behind the first one. -/
def writeItems (l : Layout) (depth : Nat) : List Json → Text → Text
  | [], rest => rest
  | item :: more, rest =>
    l.separator depth ++ write l depth item (writeItems l depth more rest)

/-- Writes the members behind the first one. -/
def writeMembers (l : Layout) (depth : Nat) : List (Units × Json) → Text → Text
  | [], rest => rest
  | (key, value) :: more, rest =>
    l.separator depth ++ (stringText key ++ ':' :: ' ' :: write l depth value
      (writeMembers l depth more rest))

end

mutual

/-- **Writing only adds in front**: what stands behind a value is left as it is. -/
theorem write_append (l : Layout) (depth : Nat) :
    ∀ (j : Json) (rest tail : Text), write l depth j (rest ++ tail) = write l depth j rest ++ tail
  | null, _, _ => by simp [write]
  | bool true, _, _ => by simp [write]
  | bool false, _, _ => by simp [write]
  | int _, _, _ => by simp [write]
  | float _, _, _ => by simp [write]
  | str _, _, _ => by simp [write]
  | arr [], _, _ => by simp [write]
  | arr (item :: more), rest, tail => by
    simp only [write, List.cons_append, List.append_assoc, ← write_append l (depth + 1) item,
      ← writeItems_append l (depth + 1) more]
  | obj [], _, _ => by simp [write]
  | obj ((key, value) :: more), rest, tail => by
    simp only [write, List.cons_append, List.append_assoc, ← write_append l (depth + 1) value,
      ← writeMembers_append l (depth + 1) more]

theorem writeItems_append (l : Layout) (depth : Nat) :
    ∀ (items : List Json) (rest tail : Text),
      writeItems l depth items (rest ++ tail) = writeItems l depth items rest ++ tail
  | [], _, _ => by simp [writeItems]
  | item :: more, rest, tail => by
    simp only [writeItems, List.append_assoc, ← write_append l depth item,
      ← writeItems_append l depth more]

theorem writeMembers_append (l : Layout) (depth : Nat) :
    ∀ (ms : List (Units × Json)) (rest tail : Text),
      writeMembers l depth ms (rest ++ tail) = writeMembers l depth ms rest ++ tail
  | [], _, _ => by simp [writeMembers]
  | (key, value) :: more, rest, tail => by
    simp only [writeMembers, List.cons_append, List.append_assoc, ← write_append l depth value,
      ← writeMembers_append l depth more]

end

/-- The value on one line. -/
def compact (j : Json) : Text := j.write .oneLine 0 []

/-- The value with each item on a line of its own. -/
def indented (j : Json) : Text := j.write .manyLines 0 []

/-! ### Running out of levels -/

/-- What was written before an item that is cut off itself. A number is written in one piece with
what stands before it. -/
def ahead (before : Text) : Json → Text
  | float _ => []
  | _ => before

mutual

/-- What is written of a value until the levels run out, if they do. Going into an array or an
object takes a level, unless it is empty, and so does writing a binary64 number that is finite. -/
def cutOff? (l : Layout) (depth levels : Nat) : Json → Option Text
  | float x => if levels = 0 && x.isFinite then some [] else none
  | arr (item :: more) =>
    match levels with
    | 0 => some []
    | levels + 1 =>
      let opening := '[' :: l.lineBreak (depth + 1)
      match cutOff? l (depth + 1) levels item with
      | some t => some (ahead opening item ++ t)
      | none => (cutItems? l (depth + 1) levels more).map fun t =>
          opening ++ write l (depth + 1) item t
  | obj ((key, value) :: more) =>
    match levels with
    | 0 => some []
    | levels + 1 =>
      let opening := '{' :: (l.lineBreak (depth + 1) ++ (stringText key ++ [':', ' ']))
      match cutOff? l (depth + 1) levels value with
      | some t => some (opening ++ t)
      | none => (cutMembers? l (depth + 1) levels more).map fun t =>
          opening ++ write l (depth + 1) value t
  | _ => none

/-- What is written of the items behind the first one until the levels run out. -/
def cutItems? (l : Layout) (depth levels : Nat) : List Json → Option Text
  | [] => none
  | item :: more =>
    match cutOff? l depth levels item with
    | some t => some (ahead (l.separator depth) item ++ t)
    | none => (cutItems? l depth levels more).map fun t =>
        l.separator depth ++ write l depth item t

/-- What is written of the members behind the first one until the levels run out. -/
def cutMembers? (l : Layout) (depth levels : Nat) : List (Units × Json) → Option Text
  | [] => none
  | (key, value) :: more =>
    let opening := l.separator depth ++ (stringText key ++ [':', ' '])
    match cutOff? l depth levels value with
    | some t => some (opening ++ t)
    | none => (cutMembers? l depth levels more).map fun t =>
        opening ++ write l depth value t

end

/-- The levels suffice to write the value. -/
def staysWithin (levels : Nat) (j : Json) : Bool := (j.cutOff? .manyLines 0 levels).isNone

/-- What is written of the value, with each item on a line of its own, on so many levels. -/
def indentedWithin (levels : Nat) (j : Json) : Text :=
  (j.cutOff? .manyLines 0 levels).getD j.indented

end EquationSheet.Json
