import EquationSheet.Disk.Directory
import EquationSheet.Disk.Host
import EquationSheet.Json.Printer
import EquationSheet.Json.Reader
import EquationSheet.Position
import EquationSheet.Text.Line

/-!
# Settings

The settings of a sheet are kept beside it as a JSON object: comments by variable, a few fixed
members, and whatever else the object held when it was read.

* `Settings.initial`, `Settings.complete`: the settings without a file, and those of a file with
  what it lacks.
* `Settings.reconcile`: drops the comments of variables that are gone and notes the time.
* `Settings.load`, `Settings.save`: from and to a disk. What cannot be read counts as not being
  there; only a path that is too long and a value that is nested too deeply are faults. A save that
  goes wrong leaves what was written so far.
-/

namespace EquationSheet.Settings

def commentsKey : Units := Text.toUtf16 "comments".toList
def lockedKey : Units := Text.toUtf16 "locked".toList
def logLevelKey : Units := Text.toUtf16 "log_level".toList
def lastOpenedKey : Units := Text.toUtf16 "last_opened".toList
def versionKey : Units := Text.toUtf16 "version".toList

/-- The log level of settings that name none. -/
def defaultLevel : Json := .str (Text.toUtf16 "INFO".toList)

/-- The version that settings are written in. -/
def version : Json := .int 1

/-- The settings of a sheet that has none yet. -/
def initial : Members :=
  [(commentsKey, .obj []), (lockedKey, .bool false), (logLevelKey, defaultLevel),
    (lastOpenedKey, .null), (versionKey, version)]

/-- Adds the members that settings lack. -/
def complete (ms : Members) : Members :=
  ((((ms.putDefault versionKey version).putDefault commentsKey (.obj [])).putDefault
    lockedKey (.bool false)).putDefault logLevelKey defaultLevel).putDefault lastOpenedKey .null

/-! ### Comments -/

/-- Comments given as a list: an item that is not among the names is taken for the position to
drop. -/
def pruneItems (names : List Units) : List Json → List Json → Except Fault Unit × List Json
  | [], kept => (.ok (), kept)
  | item :: rest, kept =>
    let drop (index : Int) : Except Fault Unit × List Json :=
      match position? kept.length index with
      | some i => pruneItems names rest (kept.eraseIdx i)
      | none => (.error .outOfRange, kept)
    match item with
    | .str s => if names.contains s then pruneItems names rest kept else (.error .wrongKind, kept)
    | .int n => drop n
    | .bool b => drop (Scalar.ofBool b)
    | _ => (.error .wrongKind, kept)

/-- Comments without those whose key is not among the names. Only objects have keys: a text passes
when each of its characters is a name, a list as `pruneItems` says, and nothing else does. -/
def pruneComments (names : List Units) : Json → Except Fault Unit × Json
  | .obj ms => (.ok (), .obj (ms.filter fun m => names.contains m.1))
  | .str s =>
    (if (Text.characters s).all names.contains then .ok () else .error .wrongKind, .str s)
  | .arr items =>
    let (result, kept) := pruneItems names items items
    (result, .arr kept)
  | j => (.error .wrongKind, j)

/-- Drops the comments of variables that are gone and notes the time of opening. Comments that
cannot be pruned are a fault, and the time is then not noted. -/
def reconcile (names : List Text) (now : Text) (ms : Members) : Except Fault Unit × Members :=
  let ms := ms.putDefault commentsKey (.obj [])
  let comments := (ms.get? commentsKey).getD (.obj [])
  let (result, pruned) := pruneComments (names.map Text.toUtf16) comments
  let ms := Members.put commentsKey pruned ms
  match result with
  | .error fault => (.error fault, ms)
  | .ok () => (.ok (), Members.put lastOpenedKey (.str now.toUtf16) ms)

/-- The comment on a variable; nothing is shown for a variable without one. -/
def comment (ms : Members) (name : Text) : Except Fault Json :=
  match (ms.get? commentsKey).getD (.obj []) with
  | .obj comments => .ok ((Members.get? comments name.toUtf16).getD (.str []))
  | _ => .error .missingPart

/-- Sets the comment on a variable; settings without comments get them. -/
def setComment (ms : Members) (name t : Text) : Except Fault Members :=
  match (ms.get? commentsKey).getD (.obj []) with
  | .obj comments =>
    .ok (Members.put commentsKey (.obj (Members.put name.toUtf16 (.str t.toUtf16) comments)) ms)
  | _ => .error .wrongKind

/-! ### Files -/

/-- Settings in place of a file that is of no use, with a warning. -/
def ignoring (kind : String) (p : Path) (h : Host) : Except Fault Members × Host :=
  (.ok initial, h.log Logger.settings Level.warning
    ("Ignoring " ++ kind ++ " config " ++ String.ofList p.toText))

/-- The text of the file at a path, if it can be read. -/
def fileText? (p : Path) (d : Disk) : Option Text :=
  match d.locateFile p with
  | .error _ => none
  | .ok k =>
    match d.content? k with
    | some (.text t) => some t.unifyNewlines
    | _ => none

/-- The settings at a path. -/
def load (p : Path) (h : Host) : Except Fault Members × Host :=
  match h.disk.pathExists p with
  | .error fault => (.error (.file (.disk fault)), h)
  | .ok false => (.ok initial, h)
  | .ok true =>
    match (fileText? p h.disk).map (Json.parseWithin h.conditions.limits.read) with
    | some (.error .tooDeep) => (.error .tooDeep, h)
    | some (.ok (.obj ms)) => (.ok (complete ms), h)
    | some (.ok _) => ignoring "malformed" p h
    | some (.error .malformed) | none => ignoring "unreadable" p h

/-- What a file holds of a value that is written to it, and how that ends: without enough room, or
at a place where the levels run out, there is only the part before. -/
def written (c : Conditions) (j : Json) : Except Fault Unit × Text :=
  let t := j.indentedWithin c.limits.save
  let kept := match c.room with
    | some room => t.take room
    | none => t
  if kept.length < t.length then (.error (.file .noSpace), kept)
  else if j.staysWithin c.limits.save then (.ok (), kept)
  else (.error .tooDeep, kept)

/-- Writes settings, any JSON value, to a path whose missing directories are made, and stay even
when the file cannot be written. -/
def save (p : Path) (j : Json) (h : Host) : Except Fault Unit × Host :=
  if !p.parent.isNameable then (.error .badPath, h)
  else
    match h.disk.makeDirectories h.conditions.limits.directories p.parent with
    | (.error fault, d) => (.error fault, h.withDisk d)
    | (.ok (), d) =>
      if !p.isNameable then (.error .badPath, h.withDisk d)
      else
        match d.locateTarget p with
        | .error cause => (.error (.file (.disk ⟨cause, p⟩)), h.withDisk d)
        | .ok k =>
          let (outcome, kept) := written h.conditions j
          (outcome, h.withDisk (d.write k (.text kept)))

end EquationSheet.Settings
