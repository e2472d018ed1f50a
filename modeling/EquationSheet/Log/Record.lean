import EquationSheet.Text.Basic

/-!
# Log records

A record names the logger it was given to, its level, its message and, for a caught fault, the
fault's name. Levels are integers; five of them have names.

* `Level.name`: the name a level is shown by.
* `LogRecord.line`: the line written for a record.
-/

namespace EquationSheet

namespace Level

def debug : Int := 10
def info : Int := 20
def warning : Int := 30
def error : Int := 40
def critical : Int := 50

/-- A level is shown by its name, or by its number. -/
def name (level : Int) : String :=
  if level = critical then "CRITICAL"
  else if level = error then "ERROR"
  else if level = warning then "WARNING"
  else if level = info then "INFO"
  else if level = debug then "DEBUG"
  else if level = 0 then "NOTSET"
  else "Level " ++ toString level

/-- The level of an upper-case name; two levels have a second name. -/
def ofName? (name : Text) : Option Int :=
  [("CRITICAL", critical), ("FATAL", critical), ("ERROR", error), ("WARN", warning),
    ("WARNING", warning), ("INFO", info), ("DEBUG", debug), ("NOTSET", 0)].lookup
    (String.ofList name)

end Level

/-- One message to be logged. -/
structure LogRecord where
  logger : Text
  level : Int
  message : String
  /-- the name of the fault that gave rise to the record -/
  fault : Option String := none
  deriving DecidableEq

/-- A text that ends in a line feed, which is added where it is missing. -/
def endLine (t : String) : String := if t.toList.getLast? = some '\n' then t else t ++ "\n"

/-- The line of a record at a time of day. The name of a fault takes a line of its own; a message
that ends its line itself is not followed by an empty one then. -/
def LogRecord.line (time : String) (r : LogRecord) : String :=
  let head := time ++ " - " ++ String.ofList r.logger ++ " - " ++ Level.name r.level ++ " - " ++
    r.message
  match r.fault with
  | none => head ++ "\n"
  | some name => endLine head ++ name ++ "\n"

namespace Logger

/-- The logger above all others of the program. -/
def root : Text := "swequations".toList

/-- A logger below the root. -/
def child (name : String) : Text := root ++ '.' :: name.toList

def store : Text := child "store"
def fileLock : Text := child "file_lock"
def settings : Text := child "config_io"
def table : Text := child "models"
def window : Text := child "main_window"

end Logger

end EquationSheet
