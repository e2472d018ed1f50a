import EquationSheet.Log.Logging
import EquationSheet.Window.Desktop

/-!
# The program

The program takes the path of a sheet, sets up logging at the level that the settings of the sheet
name, and opens a window on it. A path that leads nowhere is reported and the window stays empty.

* `App.startLevel`: the sheet to open, the log level, and what is printed before logging is set
  up.
* `App.run`: the whole start, with everything printed.
-/

namespace EquationSheet

/-- The time of the clock: the moment as settings note it and the time of day as the log shows it.
-/
structure Clock where
  moment : Text
  timeOfDay : String

/-- What a start of the program leaves: its exit code or a fault, what it printed, and the desktop
unless the fault came before there was a window. -/
structure Started where
  outcome : Except Fault Nat
  printed : Text
  desktop : Option Desktop

namespace App

/-- The level named by the settings of a sheet. -/
def levelIn (settings : Members) : Json :=
  (settings.get? Settings.logLevelKey).getD Settings.defaultLevel

/-- The sheet to open, the level to log at, and what is printed so far. -/
def startLevel (h : Host) : Option Path → Except Fault (Option Path × Json × Text)
  | none => .ok (none, Settings.defaultLevel, [])
  | some p =>
    match h.disk.pathExists (h.absolute p) with
    | .error fault => .error (.file (.disk fault))
    | .ok false =>
      .ok (none, Settings.defaultLevel,
        ("Warning: File not found: " ++ String.ofList p.toText ++ "\n").toList)
    | .ok true =>
      let p := h.resolve p
      match p.sidecar? with
      | none => .error .badPath
      | some sidecar => (Settings.load sidecar h).1.map fun ms => (some p, levelIn ms, [])

/-- Starts the program on a host. The journal of the host is printed as the log levels say. -/
def run (h : Host) (arg : Option Path) (clock : Clock) : Started :=
  match startLevel h arg with
  | .error fault => ⟨.error fault, [], none⟩
  | .ok (p, level, warning) =>
    let set := Logging.quiet.setup clock.timeOfDay level none h.disk
    match set.outcome with
    | .error fault => ⟨.error fault, warning ++ set.printed, none⟩
    | .ok () =>
      let (outcome, d) := Desktop.start { h with disk := set.disk } p clock.moment
      let (logged, disk) := set.logging.emitAll clock.timeOfDay d.host.journal d.host.disk
      let d := { d with host := d.host.withDisk disk }
      ⟨outcome.map fun _ => 0, warning ++ set.printed ++ logged, some d⟩

end App

end EquationSheet
