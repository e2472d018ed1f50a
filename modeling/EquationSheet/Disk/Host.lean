import EquationSheet.Fault
import EquationSheet.Log.Record

/-!
# Hosts

A host is what the operations of the library act on: a disk, the conditions under which files are
opened, locked and written on it, and the journal of the records logged so far. An operation takes a
host and answers a result and the host it leaves, also when the result is a fault.

* `Conditions`: what a host refuses, at which stage its writes fail, and how much room it has.
* `Limits`: how many levels it goes down.
-/

namespace EquationSheet

/-- Which ways of opening a file are refused for lack of permission. -/
inductive Denial
  | nothing
  | writing
  | everything
  deriving DecidableEq

/-- The stages of a write, in order. -/
inductive WriteStage
  | start
  | seek
  | truncate
  | write
  | flush
  | sync
  deriving DecidableEq

/-- How many levels are gone down before an operation gives up. -/
structure Limits where
  /-- in a value that is read -/
  read : Nat := usualLevels
  /-- in a value that is saved -/
  save : Nat := usualLevels
  /-- in a row of missing directories above one that is made -/
  directories : Nat := usualLevels
  deriving DecidableEq

/-- The conditions of a host. -/
structure Conditions where
  denial : Denial := .nothing
  /-- giving back a lock fails; closing the file still frees it -/
  unlockFails : Bool := false
  /-- the program runs from a bundle, where a file is written even without its lock -/
  bundled : Bool := false
  /-- the stage at which writes of sheets fail -/
  writeFault : Option WriteStage := none
  /-- what a file still has to write when it is closed cannot be written -/
  closeFails : Bool := false
  /-- how many characters of settings there is room for, if not for all -/
  room : Option Nat := none
  limits : Limits := {}
  deriving DecidableEq

/-- A disk, its conditions, the directory that relative paths start from, and the records logged
so far, the oldest first. -/
structure Host where
  disk : Disk := {}
  conditions : Conditions := {}
  directory : Path := ⟨[], []⟩
  journal : List LogRecord := []
  deriving DecidableEq

namespace Host

/-- Adds a record to the journal. -/
def log (h : Host) (logger : Text) (level : Int) (message : String)
    (fault : Option String := none) : Host :=
  { h with journal := h.journal ++ [⟨logger, level, message, fault⟩] }

/-- A path seen from the root of the disk. -/
def absolute (h : Host) (p : Path) : Path :=
  if p.root.isEmpty then { h.directory with parts := h.directory.parts ++ p.parts } else p

/-- A path seen from the root of the disk, without double dots. -/
def resolve (h : Host) (p : Path) : Path := (h.absolute p).collapse

/-- Replaces the disk. -/
def withDisk (h : Host) (d : Disk) : Host := { h with disk := d }

@[simp] theorem log_disk (h : Host) (logger : Text) (level : Int) (message : String)
    (fault : Option String) : (h.log logger level message fault).disk = h.disk := rfl

@[simp] theorem log_conditions (h : Host) (logger : Text) (level : Int) (message : String)
    (fault : Option String) : (h.log logger level message fault).conditions = h.conditions := rfl

@[simp] theorem withDisk_disk (h : Host) (d : Disk) : (h.withDisk d).disk = d := rfl

@[simp] theorem withDisk_conditions (h : Host) (d : Disk) :
    (h.withDisk d).conditions = h.conditions := rfl

end Host

end EquationSheet
