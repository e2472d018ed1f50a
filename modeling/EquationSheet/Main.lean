import EquationSheet.App
import Std.Time

/-!
# Command line

`main` takes at most one argument, the path of a sheet. It reads the sheet and its settings into a
host, starts the program on it, and prints the log and then the table, one row a line.
-/

namespace EquationSheet.CommandLine

/-- The keys on the way along the parts of a path. -/
def visited (here : Key) : List Text → List Key
  | [] => [here]
  | part :: rest => here :: visited (Disk.step here part) rest

/-- The node under a key of the machine's own disk. -/
def readNode (k : Key) : IO (Option Node) := do
  try
    let bytes ← IO.FS.readBinFile ⟨String.ofList ('/' :: Text.joinWith ['/'] k)⟩
    pure (some (.file (Content.ofBytes bytes.toList)))
  catch
    | .noFileOrDirectory .. => pure none
    | _ => pure (some .directory)

/-- The part of the machine's disk that a start on the given path looks at. -/
def readHost (directory : Path) (arg : Option Path) : IO Host := do
  let host : Host := { directory }
  match arg with
  | none => pure host
  | some p =>
    let resolved := host.resolve p
    let sidecar := (resolved.sidecar?.map Path.parts).toList
    let keys := visited [] (host.absolute p).parts ++ [resolved.parts] ++ sidecar
    let nodes ← keys.filterMapM fun k => do
      return (← readNode k).map fun node => (k, node)
    pure { host with disk := { nodes } }

/-- The clock of the machine. -/
def readClock : IO Clock := do
  let now ← Std.Time.PlainDateTime.now
  let time := now.format "HH:mm:ss"
  let moment := now.format "yyyy-MM-dd" ++ "T" ++ time ++ "." ++ now.format "SSSSSS"
  pure ⟨moment.toList, time⟩

/-- A row of the table as a line. -/
def rowLine (cells : List Json) : String :=
  let text (j : Json) : Text := match j with
    | .str s => (Text.ofUtf16? s).getD j.compact
    | j => j.compact
  String.ofList (Text.joinWith ['\t'] (cells.map text))

end EquationSheet.CommandLine

open EquationSheet in
/-- Starts the program and exits with its code. -/
def main (args : List String) : IO UInt32 := do
  let directory := Path.ofText (← IO.currentDir).toString.toList
  let arg := args.head?.map fun a => Path.ofText a.toList
  let host ← CommandLine.readHost directory arg
  let started := App.run host arg (← CommandLine.readClock)
  IO.print (String.ofList started.printed)
  match (started.desktop.bind fun d => d.window.table).map Table.cells with
  | some (.ok rows) => rows.forM fun cells => IO.println (CommandLine.rowLine cells)
  | _ => pure ()
  match started.outcome with
  | .ok code => pure (UInt32.ofNat code)
  | .error _ => pure 1
