import EquationSheet.Disk.FileLock
import EquationSheet.Position
import EquationSheet.Sheet

/-!
# Sheets on a disk

An open sheet keeps the slots of its file in memory. Changing a slot rewrites the whole file through
the lock that is held, and the slots in memory follow only when the write went through.

* `SheetFile.load`: opens a sheet.
* `SheetFile.setText`: changes one slot.
* `SheetFile.tryClose`, `SheetFile.close`: gives up the file; the slots stay readable.
-/

namespace EquationSheet

/-- A sheet that was opened. -/
structure SheetFile where
  path : Path
  lock : FileLock
  slots : List Text
  deriving DecidableEq

namespace SheetFile

/-- The sheet refuses to be written. -/
def readonly (s : SheetFile) : Bool := s.lock.readonly

/-- Opens the sheet at a path. A file that cannot be read as text is closed again. -/
def load (p : Path) (h : Host) : Except Fault SheetFile × Host :=
  match ({ path := p } : FileLock).acquire h with
  | (.error fault, h) => (.error fault, h)
  | (.ok (false, _), h) => (.error (.file (.notOpened p)), h)
  | (.ok (true, lock), h) =>
    match lock.read h with
    | .error fault => (.error fault, h.withDisk (lock.closeFile h.disk))
    | .ok t =>
      let slots := Sheet.split t
      (.ok ⟨p, lock, slots⟩,
        h.log Logger.fileLock Level.info
          ("Loaded " ++ toString slots.length ++ " equations from " ++ String.ofList p.toText))

def getText (s : SheetFile) (index : Int) : Except Fault Text :=
  match position? s.slots.length index with
  | some i => .ok (s.slots.getD i [])
  | none => .error .outOfRange

/-- Changes one slot, in the file and in memory. -/
def setText (s : SheetFile) (index : Int) (t : Text) (h : Host) : Except Fault SheetFile × Host :=
  if s.readonly then (.error (.file (.readOnly s.path)), h)
  else
    match position? s.slots.length index with
    | none => (.error .outOfRange, h)
    | some i =>
      let slots := s.slots.set i t
      match s.lock.write (Sheet.join slots) h with
      | (.error fault, h) => (.error fault, h)
      | (.ok (), h) => (.ok { s with slots := slots }, h)

/-- Gives up the file and its lock. -/
def tryClose (s : SheetFile) (h : Host) : Except Fault Unit × SheetFile × Host :=
  let (outcome, lock, h) := s.lock.tryRelease h
  (outcome, { s with lock := lock }, h)

/-- What giving up the file leaves, whether it failed or not. -/
def close (s : SheetFile) (h : Host) : SheetFile × Host := (s.tryClose h).2

end SheetFile

end EquationSheet
