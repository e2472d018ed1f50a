import EquationSheet.Window.Basic

/-!
# The desktop

A desktop is a window on a host. Opening another sheet first saves the comments on the one that is
open and closes it; a sheet that cannot be opened or read is reported in a message box.

* `Desktop.load`: opens a sheet and shows it.
* `Desktop.saveSettings`: writes the settings shown beside the sheet opened last.
* `Desktop.closeCurrent`: saves the settings and gives up the sheet.
* `Desktop.act`, `Desktop.run`: one action of a user, and several.
-/

namespace EquationSheet

/-- A window and the host it works on. -/
structure Desktop where
  window : Window := {}
  host : Host

/-- What a user does in a window. -/
inductive UserAction
  | load (path : Path)
  | filter (text : Text)
  | edit (row column : Int) (value : Scalar) (role : CellRole)
  | save
  | close
  deriving DecidableEq

namespace Desktop

def report (d : Desktop) (notices : List Notice) : Desktop :=
  { d with window := { d.window with notices := d.window.notices ++ notices } }

def alert (d : Desktop) (message : String) : Desktop := d.report [.box .critical "Error" message]

/-- Applies a filter text to the rows shown. -/
def applyFilter (d : Desktop) (filter : Text) : Desktop :=
  match d.window.table with
  | none => d
  | some t => d.report (Window.filterNotices filter 0 t.names)

/-- Writes in the filter box; the filter is applied when the text is another one than before. -/
def setFilter (d : Desktop) (filter : Text) : Desktop :=
  if filter = d.window.filter then d
  else { d with window := { d.window with filter := filter } }.applyFilter filter

/-- Writes the settings shown beside the sheet opened last. A file fault is reported, not
answered. -/
def saveSettings (d : Desktop) : Except Fault Unit × Desktop :=
  match d.window.current, d.window.table with
  | some p, some t =>
    match p.sidecar? with
    | none => (.error .badPath, d)
    | some sidecar =>
      match Settings.save sidecar (.obj t.settings) d.host with
      | (.ok (), h) => (.ok (), { d with host := h }.report [.status "Saved"])
      | (.error (.file f), h) =>
        let h := h.log Logger.window Level.error "Failed to write config" (some f.name)
        (.ok (), { d with host := h }.report
          [.box .warning "Warning" ("Failed to write CFG: " ++ f.message)])
      | (.error fault, h) => (.error fault, { d with host := h })
  | _, _ => (.ok (), d)

/-- Lets go of the sheet held, unless giving it up went wrong. -/
def letGo (d : Desktop) (outcome : Except Fault Unit) : Except Fault Unit × Desktop :=
  match outcome with
  | .ok () => (.ok (), { d with window := { d.window with held := .nothing } })
  | .error fault => (.error fault, d)

/-- Gives up the sheet held. -/
def closeSheet (d : Desktop) : Except Fault Unit × Desktop :=
  match d.window.held, d.window.table with
  | .unshown sheet, _ =>
    let (outcome, sheet, h) := sheet.tryClose d.host
    { window := { d.window with held := .unshown sheet }, host := h : Desktop }.letGo outcome
  | .shown, some t =>
    match t.source with
    | .file sheet =>
      let (outcome, sheet, h) := sheet.tryClose d.host
      let t := { t with source := .file sheet }
      { window := { d.window with table := some t }, host := h : Desktop }.letGo outcome
    | .memory .. => d.letGo (.ok ())
  | _, _ => d.letGo (.ok ())

/-- Saves the settings and gives up the sheet, if one is held. -/
def closeCurrent (d : Desktop) : Except Fault Unit × Desktop :=
  match d.window.held with
  | .nothing => (.ok (), d)
  | _ =>
    match d.saveSettings with
    | (.error fault, d) => (.error fault, d)
    | (.ok (), d) => d.closeSheet

/-- Shows a sheet that is open, under the settings kept beside it, which are brought up to date. -/
def showSheet (d : Desktop) (p : Path) (sheet : SheetFile) (names : List Text) (now : Text) :
    Except Fault Unit × Desktop :=
  match p.sidecar? with
  | none => (.error .badPath, d)
  | some sidecar =>
    match Settings.load sidecar d.host with
    | (.error fault, h) => (.error fault, { d with host := h })
    | (.ok settings, h) =>
      let d := { d with host := h }
      match Settings.reconcile names now settings with
      | (.error fault, _) => (.error fault, d)
      | (.ok (), config) =>
        match Table.create (.file sheet) config sheet.readonly with
        | .error fault => (.error fault, d)
        | .ok t =>
          let d := { d with window := { d.window with table := some t, held := .shown } }
          (.ok (), (d.applyFilter d.window.filter).report
            [.status ("Loaded " ++ String.ofList p.name ++ ": " ++ toString names.length ++
              " variables")])

/-- Holds a sheet that was just opened. -/
def hold (d : Desktop) (p : Path) (sheet : SheetFile) (h : Host) : Desktop :=
  let banner := if sheet.readonly then Window.readonlyBanner else ""
  { window := { d.window with held := .unshown sheet, current := some p, banner }, host := h }

/-- Opens the sheet at a path that exists. -/
def openSheet (d : Desktop) (p : Path) (now : Text) : Except Fault Unit × Desktop :=
  match SheetFile.load p d.host with
  | (.error (.file f), h) =>
    (.ok (), { d with host := h }.alert ("Failed to open file: " ++ f.message))
  | (.error fault, h) => (.error fault, { d with host := h })
  | (.ok sheet, h) =>
    let d := d.hold p sheet h
    match Store.names sheet.slots with
    | .error e => (d.alert ("Failed to read equations: " ++ e.message)).closeCurrent
    | .ok names => d.showSheet p sheet names now

/-- Opens the sheet at a path and shows it, after giving up the one held. -/
def load (d : Desktop) (p : Path) (now : Text) : Except Fault Unit × Desktop :=
  match d.closeCurrent with
  | (.error fault, d) => (.error fault, d)
  | (.ok (), d) =>
    if !p.isNameable then (.error .badPath, d)
    else
      let p := d.host.resolve p
      match d.host.disk.pathExists p with
      | .error fault => (.error (.file (.disk fault)), d)
      | .ok true => d.openSheet p now
      | .ok false => (.ok (), d.alert ("File does not exist: " ++ String.ofList p.toText))

/-- A new window, which opens the sheet at a path if one is given. A fault leaves the window as
far as it got. -/
def start (h : Host) (p : Option Path) (now : Text) : Except Fault Unit × Desktop :=
  match p with
  | none => (.ok (), { host := h })
  | some p => load { host := h } p now

/-- Edits a cell of the table shown. -/
def edit (d : Desktop) (row column : Int) (v : Scalar) (role : CellRole) :
    Except Fault Bool × Desktop :=
  match d.window.table with
  | none => (.error .missingPart, d)
  | some t =>
    let (edited, h) := t.set row column v role d.host
    (edited.outcome, { window := { d.window with table := some edited.table }, host := h })

/-! ### Actions -/

/-- Carries out an action of a user. Edits answer whether they were accepted. -/
def act (d : Desktop) (now : Text) : UserAction → Except Fault (Option Bool) × Desktop
  | .load p =>
    let (outcome, d) := d.load p now
    (outcome.map fun _ => none, d)
  | .filter t => (.ok none, d.setFilter t)
  | .edit row column v role =>
    let (outcome, d) := d.edit row column v role
    (outcome.map some, d)
  | .save =>
    let (outcome, d) := d.saveSettings
    (outcome.map fun _ => none, d)
  | .close =>
    let (outcome, d) := d.closeCurrent
    (outcome.map fun _ => none, d)

/-- Carries out several actions, going on after those that end in a fault. -/
def run (d : Desktop) (now : Text) (actions : List UserAction) : Desktop :=
  actions.foldl (fun d action => (d.act now action).2) d

end Desktop

end EquationSheet
