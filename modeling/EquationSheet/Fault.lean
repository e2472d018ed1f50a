import EquationSheet.Disk.Basic
import EquationSheet.Error
import EquationSheet.Scalar

/-!
# Faults

Everything that can go wrong in the library, as one type. An operation answers a value or a fault.

* `FileFault`: what the disk refuses, and what files opened here refuse themselves.
* `Fault`: a file fault, a fault of an equation or a scalar, or a value of the wrong shape.
* `FileFault.message`, `FileFault.name`: the wording and the name that a record of the fault shows.
-/

namespace EquationSheet

/-- What goes wrong with a file. -/
inductive FileFault
  /-- the disk refused a path -/
  | disk (fault : DiskFault)
  /-- the file could not be opened at all -/
  | notOpened (path : Path)
  /-- the open file may not be written -/
  | readOnly (path : Path)
  /-- there is no open file, or it may not be written -/
  | notWritable
  /-- a write did not go through -/
  | diskFull
  /-- there is no room for the whole of a text -/
  | noSpace
  /-- the file was closed before -/
  | closed
  deriving DecidableEq

/-- How many levels are gone down where nothing else is said. -/
def usualLevels : Nat := 986

/-- What goes wrong. -/
inductive Fault
  | file (fault : FileFault)
  | equation (error : EquationError)
  | scalar (fault : ScalarFault)
  /-- bytes that are not the encoding of a text -/
  | undecodable
  /-- a path that names no file -/
  | badPath
  /-- a position outside a list -/
  | outOfRange
  /-- a value of the wrong kind -/
  | wrongKind
  /-- a part was asked of something that is not there or has no such part -/
  | missingPart
  /-- more levels than are gone down -/
  | tooDeep
  deriving DecidableEq

namespace FileFault

/-- The name a fault goes by in a record. -/
def name : FileFault → String
  | disk ⟨.notFound, _⟩ => "FileNotFoundError"
  | disk ⟨.isADirectory, _⟩ => "IsADirectoryError"
  | disk ⟨.notADirectory, _⟩ => "NotADirectoryError"
  | disk ⟨.alreadyExists, _⟩ => "FileExistsError"
  | disk ⟨.permissionDenied, _⟩ => "PermissionError"
  | disk ⟨.nameTooLong, _⟩ => "OSError"
  | notOpened _ | readOnly _ | notWritable | diskFull | noSpace => "OSError"
  | closed => "ValueError"

def message : FileFault → String
  | disk ⟨cause, path⟩ =>
    "[Errno " ++ toString cause.wording.1 ++ "] " ++ cause.wording.2 ++ ": " ++
      String.ofList path.toText.quoted
  | notOpened path => "Failed to open file: " ++ String.ofList path.toText
  | readOnly path => String.ofList path.toText ++ " is open read-only."
  | notWritable => "File is read-only or not open."
  | diskFull => "disk full"
  | noSpace => "[Errno 28] No space left on device"
  | closed => "I/O operation on closed file."

end FileFault

end EquationSheet
