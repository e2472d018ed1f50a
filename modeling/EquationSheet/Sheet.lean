import EquationSheet.Text.Line
import EquationSheet.Text.Trim

/-!
# Sheets of equations

A sheet is the text of many equations, one slot a line. Blank lines and the whitespace around a slot
do not belong to it.

* `Sheet.split`: the slots of a sheet.
* `Sheet.join`: a sheet with the given slots, every one with a line feed behind it; without slots it
  is a single line feed.
-/

namespace EquationSheet.Sheet

/-- The slots of a sheet: its trimmed lines that are not empty. -/
def split (t : Text) : List Text := (t.lines.map Text.trim).filter fun slot => !slot.isEmpty

/-- A sheet with the given slots. -/
def join (slots : List Text) : Text := Text.joinWith ['\n'] slots ++ ['\n']

end EquationSheet.Sheet
