import EquationSheet.Disk.Host
import EquationSheet.Text.Line

/-!
# Locked files

A file is held open together with its exclusive lock. Where the lock is taken already, or the file
may only be read, it is held open all the same but refuses to be written.

* `FileLock.acquire`: opens the file, in place of the one held before, and takes its lock.
* `FileLock.tryRelease`, `FileLock.release`: gives the lock back and closes the file, which can fail
  where a text is left to write.
* `FileLock.read`, `FileLock.write`: the whole text; writing goes in stages, any of which may
  fail.
-/

namespace EquationSheet

/-- A file that may be held open. -/
structure FileLock where
  path : Path
  file : Option OpenFile := none
  locked : Bool := false
  readonly : Bool := false
  /-- the stage at which writes are going to fail -/
  writeFault : Option WriteStage := none
  /-- the file held was closed already, by a release that failed -/
  spent : Bool := false
  deriving DecidableEq

namespace FileLock

/-- Closes the file held, if any, to which nothing was written. This frees its lock. -/
def closeFile (l : FileLock) (d : Disk) : Disk :=
  match l.file with
  | some f => d.unlock f
  | none => d

/-- Lets go of the file held, if any, without a word: what it has left to write is written if that
is possible. -/
def drop (l : FileLock) (h : Host) : Host :=
  match l.file with
  | some f =>
    h.withDisk ((if h.conditions.closeFails then h.disk.forget f else h.disk.flush f).unlock f)
  | none => h

/-- The lock after its file could not be opened: none is held any more. -/
def refused (l : FileLock) (cause : DiskCause) (h : Host) : FileLock × Host :=
  ({ l with file := none, spent := false },
    (l.drop h).log Logger.fileLock Level.error ("Could not open " ++ String.ofList l.path.toText)
      (some (FileFault.disk ⟨cause, l.path⟩).name))

/-- Opens the file under a key in place of the one held before. -/
def reopen (l : FileLock) (k : Key) (h : Host) : OpenFile × Host :=
  let (f, d) := h.disk.openKey k
  (f, l.drop (h.withDisk d))

/-- Opens a file that may not be written for reading only. -/
def acquireReadOnly (l : FileLock) (h : Host) : (Bool × FileLock) × Host :=
  match h.disk.locateFile l.path with
  | .error cause =>
    let (l, h) := l.refused cause h
    ((false, l), h)
  | .ok k =>
    let (f, h) := l.reopen k h
    ((true, { l with file := some f, readonly := true, spent := false }), h)

/-- Takes the lock of the file just opened. Without it the file is not written, unless the program
is bundled. -/
def takeLock (l : FileLock) (f : OpenFile) (h : Host) : (Bool × FileLock) × Host :=
  match h.disk.tryLock f with
  | some d =>
    ((true, { l with file := some f, locked := true, readonly := false, spent := false }),
      h.withDisk d)
  | none =>
    let readonly := !h.conditions.bundled
    ((true, { l with file := some f, locked := false, readonly, spent := false }),
      h.log Logger.fileLock Level.warning ("Could not lock " ++ String.ofList l.path.toText))

/-- Opens a file for writing and takes its lock. -/
def acquireWritable (l : FileLock) (h : Host) : (Bool × FileLock) × Host :=
  match h.disk.locateFile l.path with
  | .error cause =>
    let (l, h) := l.refused cause h
    ((false, l), h)
  | .ok k =>
    let (f, h) := l.reopen k h
    l.takeLock f h

/-- Opens the file and takes its lock; answers whether the file is open. A file held before is
closed once the new one is open, or when there is none to open. -/
def acquire (l : FileLock) (h : Host) : Except Fault (Bool × FileLock) × Host :=
  if h.conditions.denial = .everything then
    let (l, h) := l.refused .permissionDenied h
    (.ok (false, l), h)
  else if !l.path.isNameable then (.error .badPath, h)
  else
    let (result, h) :=
      if h.conditions.denial = .writing then l.acquireReadOnly h else l.acquireWritable h
    (.ok result, h)

/-- Gives the lock back and closes the file. When what it has left to write cannot be written it is
closed all the same, but still held; another release then finds it closed. -/
def tryRelease (l : FileLock) (h : Host) : Except Fault Unit × FileLock × Host :=
  match l.file with
  | none => (.ok (), l, h)
  | some f =>
    if l.spent then
      (if l.locked then .error (.file .closed) else .ok (),
        { l with file := none, locked := false, spent := false }, h)
    else
      let h :=
        if l.locked && h.conditions.unlockFails then
          h.log Logger.fileLock Level.warning ("Could not unlock " ++ String.ofList l.path.toText)
        else h
      if h.conditions.closeFails && (h.disk.unwritten? f).isSome then
        (.error (.file .diskFull), { l with spent := true },
          h.withDisk ((h.disk.forget f).unlock f))
      else
        (.ok (), { l with file := none, locked := false }, h.withDisk ((h.disk.flush f).unlock f))

/-- What a release leaves, whether it failed or not. -/
def release (l : FileLock) (h : Host) : FileLock × Host := (l.tryRelease h).2

/-- The text of the file, with its newlines unified; empty when no file is open. -/
def read (l : FileLock) (h : Host) : Except Fault Text :=
  match l.file with
  | none => .ok []
  | some f =>
    match h.disk.content? f.key with
    | some (.text t) => .ok t.unifyNewlines
    | some (.binary _) => .error .undecodable
    | none => .ok []

/-- The disk after a write of a text that fails at a stage: the stages before it have happened. The
seek writes what an earlier write left, and a text that cannot be flushed is left to write. -/
def diskAfter (d : Disk) (f : OpenFile) (t : Text) : WriteStage → Disk
  | .start | .seek => d
  | .truncate => d.flush f
  | .write => (d.forget f).write f.key (.text [])
  | .flush => ((d.forget f).write f.key (.text [])).leave f t
  | .sync => (d.forget f).write f.key (.text t)

/-- The stage at which a write is going to fail: one of the file's own, or that of the host. -/
def failingStage (l : FileLock) (h : Host) : Option WriteStage :=
  l.writeFault.or h.conditions.writeFault

/-- Replaces the text of the file. -/
def write (l : FileLock) (t : Text) (h : Host) : Except Fault Unit × Host :=
  if l.failingStage h = some .start then (.error (.file .diskFull), h)
  else
    match l.file with
    | none => (.error (.file .notWritable), h)
    | some f =>
      if l.readonly then (.error (.file .notWritable), h)
      else if l.spent then (.error (.file .closed), h)
      else
        match l.failingStage h with
        | none => (.ok (), h.withDisk ((h.disk.forget f).write f.key (.text t)))
        | some stage => (.error (.file .diskFull), h.withDisk (diskAfter h.disk f t stage))

end FileLock

end EquationSheet
