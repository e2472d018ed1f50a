import EquationSheet.Settings
import EquationSheet.Store.Update

/-!
# Tables

A sheet is shown as a table with a row for each variable: its name, its value text, its value in SI
units, and the comment on it. Values and comments can be edited.

* `Table.create`, `Table.reload`: the rows are what the store finds in the slots.
* `Table.cell`: what a cell shows; the SI value is computed from the slots each time.
* `Table.set`: edits a cell. An edit that is refused answers `false` and changes nothing.
-/

namespace EquationSheet

/-- The rows shown, the slots and the settings they come from. -/
structure Table where
  source : SlotSource
  settings : Members
  rows : List (Text × Text) := []
  /-- values may not be edited -/
  readonly : Bool

/-- What a cell is asked for. -/
inductive CellRole
  | display
  | edit
  | toolTip
  deriving DecidableEq

/-- What a table tells those who watch it. -/
inductive TableEvent
  | beginReset
  | endReset
  | changed (row column : Nat)
  deriving DecidableEq

/-- What can be done with a cell. -/
structure CellFlags where
  selectable : Bool
  editable : Bool
  enabled : Bool
  deriving DecidableEq

/-- What an edit leaves: its outcome, the table, and the events on the way. -/
structure Edited where
  outcome : Except Fault Bool
  table : Table
  events : List TableEvent

namespace Table

/-- The headings of the columns. -/
def columns : List String := ["Variable", "Value", "SI Value", "Comment"]

/-- The heading of a column; negative columns count from the end. -/
def heading (column : Int) : Except Fault String :=
  match (position? columns.length column).bind fun i => columns[i]? with
  | some heading => .ok heading
  | none => .error .outOfRange

/-- Reads the rows again. With a fault the old rows stay and the reset is never ended. -/
def reload (t : Table) : Except Fault Unit × Table × List TableEvent :=
  match Store.entries t.source.texts with
  | .error e => (.error (.equation e), t, [.beginReset])
  | .ok rows => (.ok (), { t with rows := rows }, [.beginReset, .endReset])

/-- The table of slots and settings. -/
def create (source : SlotSource) (settings : Members) (readonly : Bool) :
    Except Fault Table :=
  match reload { source, settings, readonly } with
  | (.ok (), t, _) => .ok t
  | (.error fault, _, _) => .error fault

def names (t : Table) : List Text := t.rows.map Prod.fst

/-- The value of a variable in SI units, empty where the slot of the variable is no equation. -/
def siText (t : Table) (name : Text) : Text :=
  match Store.equationOf t.source.texts name with
  | .ok (some e) => e.value.toCompactText ++ ' ' :: e.category.siSymbol
  | _ => []

/-- The row and the column of a cell, if there is such a cell. -/
def index? (t : Table) (row column : Int) : Option (Nat × Nat) :=
  if 0 ≤ row ∧ row < t.rows.length ∧ 0 ≤ column ∧ column < columns.length then
    some (row.toNat, column.toNat)
  else none

/-- A text as a JSON value. -/
def textCell (t : Text) : Json := .str t.toUtf16

/-- What a cell shows in one column of a row. -/
def cellOf (t : Table) (row : Text × Text) (column : Nat) : Except Fault Json :=
  match column with
  | 0 => .ok (textCell row.1)
  | 1 => .ok (textCell row.2)
  | 2 => .ok (textCell (t.siText row.1))
  | _ => Settings.comment t.settings row.1

/-- What a cell shows; nothing outside the table, and nothing but for display and editing. -/
def cell (t : Table) (row column : Int) (role : CellRole) : Except Fault (Option Json) :=
  match t.index? row column with
  | none => .ok none
  | some (r, c) =>
    match role, t.rows[r]? with
    | .toolTip, _ | _, none => .ok none
    | _, some entry => (t.cellOf entry c).map some

/-- All cells, row by row. -/
def cells (t : Table) : Except Fault (List (List Json)) :=
  t.rows.mapM fun row => (List.range columns.length).mapM fun c => t.cellOf row c

/-- What can be done with a cell; outside the table nothing can. -/
def flags (t : Table) (row column : Int) : CellFlags :=
  match t.index? row column with
  | none => ⟨false, false, false⟩
  | some (_, c) => ⟨true, c == 3 || (c == 1 && !t.readonly), true⟩

/-! ### Editing -/

/-- A scalar as a record shows it. -/
def shown (v : Scalar) (t : Text) : String :=
  match v with
  | .text t => String.ofList t.quoted
  | _ => String.ofList t

/-- Sets a variable to a number and reads the rows again, for the rewrite may reach the names.
What the store refuses is a refused edit, and so is a write that fails, unless the file was closed.
-/
def setNumber (t : Table) (name : Text) (x : Binary64) (h : Host) : Edited × Host :=
  match Store.setOne t.source name (.float x) h with
  | (.ok (some _, source), h) =>
    match { t with source := source }.reload with
    | (.ok (), t, events) => (⟨.ok true, t, events⟩, h)
    | (.error fault, t, events) => (⟨.error fault, t, events⟩, h)
  | (.ok (none, _), h) => (⟨.ok false, t, []⟩, h)
  | (.error (.equation e), h) =>
    (⟨.ok false, t, []⟩, h.log Logger.table Level.warning
      ("Cannot set " ++ String.ofList name ++ ": " ++ e.message))
  | (.error (.file .closed), h) => (⟨.error (.file .closed), t, []⟩, h)
  | (.error (.file f), h) =>
    (⟨.ok false, t, []⟩, h.log Logger.table Level.error
      ("Failed to write " ++ String.ofList name) (some f.name))
  | (.error fault, h) => (⟨.error fault, t, []⟩, h)

/-- Edits the value of a variable; what is entered has to be a numeral, with whitespace around it.
-/
def setValue (t : Table) (name : Text) (v : Scalar) (h : Host) : Edited × Host :=
  if t.readonly then (⟨.ok false, t, []⟩, h)
  else
    match v.toText with
    | .error fault => (⟨.error (.scalar fault), t, []⟩, h)
    | .ok entered =>
      match Numeral.parse entered.trim with
      | .ok x => t.setNumber name x h
      | .error _ =>
        (⟨.ok false, t, []⟩, h.log Logger.table Level.debug
          ("Rejected value " ++ shown v entered ++ " for " ++ String.ofList name))

/-- Edits the comment on a variable. -/
def setComment (t : Table) (row : Nat) (name : Text) (v : Scalar) : Edited :=
  match v.toText with
  | .error fault => ⟨.error (.scalar fault), t, []⟩
  | .ok entered =>
    match Settings.setComment t.settings name entered with
    | .error fault => ⟨.error fault, t, []⟩
    | .ok settings => ⟨.ok true, { t with settings := settings }, [.changed row 3]⟩

/-- Edits a cell. Only values and comments can be edited, and only in the role of editing. -/
def set (t : Table) (row column : Int) (v : Scalar) (role : CellRole) (h : Host) : Edited × Host :=
  match role, t.index? row column with
  | .edit, some (r, c) =>
    match t.rows[r]? with
    | none => (⟨.ok false, t, []⟩, h)
    | some (name, _) =>
      if c = 1 then t.setValue name v h
      else if c = 3 then (t.setComment r name v, h)
      else (⟨.ok false, t, []⟩, h)
  | _, _ => (⟨.ok false, t, []⟩, h)

end Table

end EquationSheet
