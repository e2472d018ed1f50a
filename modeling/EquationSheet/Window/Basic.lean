import EquationSheet.Table
import EquationSheet.Text.Lowercase

/-!
# Windows

A window shows the table of one sheet and has a filter box, a status bar, message boxes and a
banner. The filter box hides the rows whose name does not contain its text.

* `Window`: what a window holds and what it has reported so far.
* `Window.hides`: the names that a filter text hides.
-/

namespace EquationSheet

/-- How grave a message box is. -/
inductive BoxKind
  | critical
  | warning
  deriving DecidableEq

/-- What a window reports: a message in the status bar, a message box, or whether a row is hidden.
-/
inductive Notice
  | status (message : String)
  | box (kind : BoxKind) (title : String) (message : String)
  | row (index : Nat) (hidden : Bool)
  deriving DecidableEq

/-- The sheet that a window holds open: none, the one its table shows, or one that it does not show
because showing it went wrong. -/
inductive OpenSheet
  | nothing
  | shown
  | unshown (sheet : SheetFile)

/-- A window. The table may show a sheet that is closed already. -/
structure Window where
  current : Option Path := none
  held : OpenSheet := .nothing
  table : Option Table := none
  filter : Text := []
  banner : String := ""
  /-- what was reported so far, the oldest first -/
  notices : List Notice := []

namespace Window

def title : String := "SolidWorks Global Variables"

/-- The banner over a sheet that may not be written. -/
def readonlyBanner : String := "READ-ONLY: Could not acquire lock"

/-- A sheet is held open. -/
def isOpen (w : Window) : Bool :=
  match w.held with
  | .nothing => false
  | _ => true

/-- A filter text hides a name that does not contain it, whitespace around it and case aside. An
empty one hides none. -/
def hides (filter name : Text) : Bool :=
  let wanted := filter.trim.lower
  !wanted.isEmpty && !wanted.occursIn name.lower

/-- The rows hidden and shown by a filter text. -/
def filterNotices (filter : Text) (index : Nat) : List Text → List Notice
  | [] => []
  | name :: more => .row index (hides filter name) :: filterNotices filter (index + 1) more

end Window

end EquationSheet
