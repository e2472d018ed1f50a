import EquationSheet.Disk.Host
import EquationSheet.Json.Basic
import EquationSheet.Text.Lowercase

/-!
# Logging

Records reach the console, and a log file if there is one, when their level is at least that of the
logger and of the sink. A set-up replaces all sinks.

* `Logging.setup`: sets the level and the sinks.
* `Logging.emit`: what a record prints, and the log files afterwards.
* `reachesRoot`: the loggers whose records get as far as the sinks, by way of loggers already in
  use.
-/

namespace EquationSheet

/-- Where lines go. -/
inductive Sink
  | console
  | file (key : Key)
  deriving DecidableEq

/-- A sink and the least level it takes. -/
structure Handler where
  sink : Sink
  level : Int
  deriving DecidableEq

/-- The level of the root logger of the program, its sinks, in order, and the loggers in use. -/
structure Logging where
  level : Int
  handlers : List Handler
  inUse : List Text := [Logger.root]
  deriving DecidableEq

namespace Logging

/-- Before any set-up nothing is printed. -/
def quiet : Logging := { level := 51, handlers := [] }

/-! ### Levels -/

/-- The upper case of the letters that level names are written with. Two letters beyond ASCII have
one of those as their upper case. -/
def upperLetter (c : Char) : Char :=
  if c.toNat = 305 then 'I' else if c.toNat = 383 then 'S' else c.toUpper

/-- The level of a name in any case; other names stand for the level of information. -/
def levelOfName (name : Text) : Int := (Level.ofName? (name.map upperLetter)).getD Level.info

/-- A level given as a name or an integer. -/
def levelOf : Json → Except Fault Int
  | .str s => .ok (((Text.ofUtf16? s).map levelOfName).getD Level.info)
  | .int n => .ok n
  | .bool b => .ok (Scalar.ofBool b)
  | _ => .error .wrongKind

/-! ### Records -/

/-- The names that a logger's own parent is looked for under, the nearest first: what precedes a
dot, without the dot right before one already tried. -/
def ancestors (logger : Text) : List Text :=
  let rec go : Nat → Text → List Text
    | 0, _ => []
    | fuel + 1, reversed =>
      match reversed.dropWhile (· ≠ '.') with
      | [] => []
      | _ :: above => if above.isEmpty then [] else above.reverse :: go fuel (above.drop 1)
  go logger.length logger.reverse

/-- The parent of a logger is the nearest of its ancestors in use. -/
def parent? (inUse : List Text) (logger : Text) : Option Text :=
  (ancestors logger).find? inUse.contains

/-- The logger is the root of the program or stands below it, its parents being followed on at most
`fuel` levels. -/
def reachesRoot (inUse : List Text) : Nat → Text → Bool
  | 0, logger => logger == Logger.root
  | fuel + 1, logger =>
    logger == Logger.root ||
      match parent? inUse logger with
      | some parent => reachesRoot inUse fuel parent
      | none => false

/-- The records of a logger get as far as the sinks. A parent has a shorter name. -/
def passesOn (l : Logging) (logger : Text) : Bool := reachesRoot l.inUse logger.length logger

/-- Puts a logger in use. -/
def use (l : Logging) (logger : Text) : Logging := { l with inUse := logger :: l.inUse }

/-- The level below which the loggers of the program drop records; a level of zero defers to the
general one. -/
def threshold (l : Logging) : Int := if l.level = 0 then Level.warning else l.level

/-- The logger passes a record of this level on. -/
def isEnabled (l : Logging) (level : Int) : Bool :=
  decide (0 < level) && decide (l.threshold ≤ level)

/-- Adds a line to a log file. -/
def append (d : Disk) (k : Key) (line : Text) : Disk :=
  match d.content? k with
  | some (.text t) => d.write k (.text (t ++ line))
  | _ => d.write k (.text line)

/-- Hands a line to the sinks that take records of its level: what the console prints, and the
disk. -/
def deliver (line : Text) (level : Int) : List Handler → Disk → Text × Disk
  | [], d => ([], d)
  | handler :: more, d =>
    if handler.level ≤ level then
      match handler.sink with
      | .console =>
        let (printed, d) := deliver line level more d
        (line ++ printed, d)
      | .file k => deliver line level more (append d k line)
    else deliver line level more d

/-- What a record prints on the console, and the disk with the log files after it. -/
def emit (l : Logging) (time : String) (r : LogRecord) (d : Disk) : Text × Disk :=
  if l.passesOn r.logger && l.isEnabled r.level then
    deliver (r.line time).toList r.level l.handlers d
  else ([], d)

/-- What several records print, one after the other. -/
def emitAll (l : Logging) (time : String) : List LogRecord → Disk → Text × Disk
  | [], d => ([], d)
  | r :: more, d =>
    let (printed, d) := l.emit time r d
    let (rest, d) := l.emitAll time more d
    (printed ++ rest, d)

/-! ### Set-up -/

/-- The record of a finished set-up. -/
def initialized : LogRecord := ⟨Logger.root, Level.info, "Logging initialized.", none⟩

/-- What a set-up leaves: its outcome, the sinks, what it printed, and the disk. -/
structure Setup where
  outcome : Except Fault Unit
  logging : Logging
  printed : Text
  disk : Disk

/-- Sets the level and replaces the sinks by the console and, if one is named, a log file, which is
emptied. When that cannot be opened the console stays the only sink and nothing is printed. -/
def setup (l : Logging) (time : String) (level : Json) (file : Option Path) (d : Disk) : Setup :=
  match levelOf level with
  | .error fault => ⟨.error fault, l, [], d⟩
  | .ok level =>
    let console : Logging := { l with level, handlers := [⟨.console, level⟩] }
    match file with
    | none =>
      let (printed, d) := console.emit time initialized d
      ⟨.ok (), console, printed, d⟩
    | some p =>
      let p := p.collapse
      if !p.isNameable then ⟨.error .badPath, console, [], d⟩
      else
        match d.locateTarget p with
        | .error cause => ⟨.error (.file (.disk ⟨cause, p⟩)), console, [], d⟩
        | .ok k =>
          let both := { console with handlers := console.handlers ++ [⟨.file k, level⟩] }
          let (printed, d) := both.emit time initialized (d.write k (.text []))
          ⟨.ok (), both, printed, d⟩

end Logging

end EquationSheet
