import EquationSheet.Text.Basic

/-!
# Lines

A line ends at any of ten boundary code points, a carriage return and a line feed together ending
one line. The text behind the last boundary is a line unless it is empty.

* `lines`: the lines of a text, without their boundaries.
* `unifyNewlines`: what reading a file does to carriage returns.
-/

namespace EquationSheet.Text

/-- The code points that end a line. -/
def isLineBoundary (c : Char) : Bool :=
  let n := c.toNat
  (decide (10 ≤ n) && decide (n ≤ 13)) || (decide (28 ≤ n) && decide (n ≤ 30)) ||
    n == 133 || n == 8232 || n == 8233

/-- Puts a code point at the start of the first line. -/
def consToFirst (c : Char) : List Text → List Text
  | [] => [[c]]
  | line :: more => (c :: line) :: more

/-- The lines of a text, without their boundaries. -/
def lines : Text → List Text
  | [] => []
  | '\r' :: '\n' :: rest => [] :: lines rest
  | c :: rest => if isLineBoundary c then [] :: lines rest else consToFirst c (lines rest)

/-- Turns every carriage return, alone or before a line feed, into one line feed. -/
def unifyNewlines : Text → Text
  | [] => []
  | '\r' :: '\n' :: rest => '\n' :: unifyNewlines rest
  | c :: rest => (if c = '\r' then '\n' else c) :: unifyNewlines rest

end EquationSheet.Text
