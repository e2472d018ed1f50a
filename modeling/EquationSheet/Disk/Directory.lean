import EquationSheet.Fault

/-!
# Making directories

* `Disk.makeDirectory`: makes one directory, whose parent has to be there.
* `Disk.makeDirectories`: makes a directory together with its missing parents, content if it is
  there. What was made before a fault stays.
-/

namespace EquationSheet.Disk

/-- Makes one directory. -/
def makeDirectory (d : Disk) (p : Path) : Except DiskCause Disk :=
  match d.locate p with
  | .error cause => .error cause
  | .ok k =>
    match d.node? k with
    | some _ => .error .alreadyExists
    | none => .ok { d with nodes := d.nodes ++ [(k, .directory)] }

/-- The path leads to a directory. -/
def isDirectory (d : Disk) (p : Path) : Bool :=
  match d.locate p with
  | .ok k => d.node? k == some .directory
  | .error _ => false

/-- A directory that could not be made is a fault unless it is there. -/
def unlessThere (d : Disk) (p : Path) (cause : DiskCause) : Except Fault Unit × Disk :=
  (if d.isDirectory p then .ok () else .error (.file (.disk ⟨cause, p⟩)), d)

/-- Makes one directory, content if there is one. -/
def ensureDirectory (d : Disk) (p : Path) : Except Fault Unit × Disk :=
  match d.makeDirectory p with
  | .ok d => (.ok (), d)
  | .error cause => d.unlessThere p cause

/-- Makes the directory with the given parts, last part first, and before it those of its parents
that are missing, at most `levels` of them. -/
def makeParts (d : Disk) (root : Text) (levels : Nat) : List Text → Except Fault Unit × Disk
  | [] => (.ok (), d)
  | part :: above =>
    let p : Path := ⟨root, (part :: above).reverse⟩
    match d.makeDirectory p with
    | .ok d => (.ok (), d)
    | .error .notFound =>
      match levels with
      | 0 => (.error .tooDeep, d)
      | levels + 1 =>
        match makeParts d root levels above with
        | (.error fault, d) => (.error fault, d)
        | (.ok (), d) => d.ensureDirectory p
    | .error cause => d.unlessThere p cause
  termination_by structural parts => parts

/-- Makes a directory together with its missing parents, at most `levels` of them. -/
def makeDirectories (d : Disk) (levels : Nat) (p : Path) : Except Fault Unit × Disk :=
  makeParts d p.root levels p.parts.reverse

end EquationSheet.Disk
