import EquationSheet.Disk.Path

/-!
# Disks

A disk is a tree of directories and files, kept as a list of nodes under the keys they are reached
by; there are no links between them. A file holds a text, or bytes that are no text. An open file may
own the exclusive lock of the file it is open on; no two open files own it at once. It may also have
a text left to write, after a write that went wrong.

* `Disk.locate`: the key of a path, found by walking the directories on the way.
* `Disk.write`, `content?_write`: writing changes one file and no other.
* `Disk.tryLock`, `Disk.unlock`: taking and giving back the lock of a file.
* `Disk.leave`, `Disk.flush`, `Disk.forget`: a text left to write, written at last, or lost.
-/

namespace EquationSheet

/-- What a file holds; bytes are kept only where they are not the encoding of a text. -/
inductive Content
  | text (t : Text)
  | binary (bytes : List UInt8)
  deriving DecidableEq

/-- The content of a file with the given bytes. -/
def Content.ofBytes (bytes : List UInt8) : Content :=
  match String.fromUTF8? ⟨bytes.toArray⟩ with
  | some s => .text s.toList
  | none => .binary bytes

/-- The bytes of a file. -/
def Content.bytes : Content → List UInt8
  | .text t => (String.ofList t).toUTF8.data.toList
  | .binary bytes => bytes

/-- What a file holds after a text was written over its start. -/
def Content.overwrite (content : Content) (t : Text) : Content :=
  match content with
  | .text [] => .text t
  | content => .ofBytes (Content.bytes (.text t) ++ content.bytes.drop t.byteCount)

/-- What stands under a key. -/
inductive Node
  | file (content : Content)
  | directory
  deriving DecidableEq

/-- The parts on the way from the root to a node. -/
abbrev Key := List Text

/-- Why a path could not be used. -/
inductive DiskCause
  | notFound
  | isADirectory
  | notADirectory
  | alreadyExists
  | permissionDenied
  | nameTooLong
  deriving DecidableEq

/-- A path that could not be used, and why. -/
structure DiskFault where
  cause : DiskCause
  path : Path
  deriving DecidableEq

namespace DiskCause

/-- The number and the wording that the system gives a cause. -/
def wording : DiskCause → Nat × String
  | notFound => (2, "No such file or directory")
  | isADirectory => (21, "Is a directory")
  | notADirectory => (20, "Not a directory")
  | alreadyExists => (17, "File exists")
  | permissionDenied => (13, "Permission denied")
  | nameTooLong => (36, "File name too long")

end DiskCause

/-- An open file. -/
structure OpenFile where
  id : Nat
  key : Key
  deriving DecidableEq

/-- The nodes, the number of the next file to be opened, for each locked file the open file that
owns its lock, and the texts that open files have left to write. -/
structure Disk where
  nodes : List (Key × Node) := []
  nextId : Nat := 0
  owners : List (Key × Nat) := []
  unwritten : List (Nat × Text) := []
  deriving DecidableEq

namespace Disk

/-- The node under a key; the root is a directory. -/
def node? (d : Disk) (k : Key) : Option Node :=
  if k.isEmpty then some .directory else d.nodes.lookup k

/-- The content of the file under a key. -/
def content? (d : Disk) (k : Key) : Option Content :=
  match d.node? k with
  | some (.file content) => some content
  | _ => none

/-- The key reached from a directory by one part of a path. -/
def step (here : Key) (part : Text) : Key :=
  if part = ['.', '.'] then here.dropLast else here ++ [part]

/-- The key reached from `here`; all nodes left behind have to be directories, and no part may be
too long to be looked up in its directory. -/
def walk (d : Disk) (here : Key) : List Text → Except DiskCause Key
  | [] => .ok here
  | part :: rest =>
    match d.node? here with
    | some .directory =>
      if Path.maxPartBytes < part.byteCount then .error .nameTooLong
      else walk d (step here part) rest
    | some (.file _) => .error .notADirectory
    | none => .error .notFound

/-- The key of a path, which need not have a node. -/
def locate (d : Disk) (p : Path) : Except DiskCause Key :=
  if p.isTooLong then .error .nameTooLong else walk d [] p.parts

/-- Whether a path leads to a node. A path that is too long has no answer; other paths that cannot
be walked lead nowhere. -/
def pathExists (d : Disk) (p : Path) : Except DiskFault Bool :=
  if !p.isNameable then .ok false
  else
    match d.locate p with
    | .ok k => .ok (d.node? k).isSome
    | .error .nameTooLong => .error ⟨.nameTooLong, p⟩
    | .error _ => .ok false

/-- Sets the node under a key. -/
def setNode (key : Key) (node : Node) : List (Key × Node) → List (Key × Node)
  | [] => [(key, node)]
  | (k, n) :: rest => if k = key then (k, node) :: rest else (k, n) :: setNode key node rest

/-- Sets the content of the file under a key. -/
def write (d : Disk) (k : Key) (content : Content) : Disk :=
  { d with nodes := setNode k (.file content) d.nodes }

theorem lookup_setNode (key k : Key) (node : Node) (nodes : List (Key × Node)) :
    (setNode key node nodes).lookup k = if k = key then some node else nodes.lookup k := by
  induction nodes with
  | nil =>
    by_cases h : k = key
    · simp [setNode, h]
    · simp [setNode, List.lookup_cons, List.lookup_nil, beq_false_of_ne h, h]
  | cons m rest ih =>
    obtain ⟨k', n⟩ := m
    by_cases hk : k' = key
    · subst hk
      by_cases h : k = k'
      · simp [setNode, h]
      · simp [setNode, List.lookup_cons, beq_false_of_ne h, h]
    · by_cases h : k = k'
      · subst h
        simp [setNode, hk]
      · simp [setNode, hk, List.lookup_cons, beq_false_of_ne h, ih]

theorem content?_eq_some_iff {d : Disk} {k : Key} {content : Content} :
    d.content? k = some content ↔ d.node? k = some (.file content) := by
  unfold content?
  split
  · rename_i found hnode
    rw [hnode, Option.some.injEq, Option.some.injEq, Node.file.injEq]
  · rename_i hnode
    constructor
    · intro h
      simp at h
    · intro h
      exact absurd h (hnode content)

/-- **Writing changes one file.** -/
theorem content?_write {d : Disk} {key : Key} (hkey : key ≠ []) (k : Key) (content : Content) :
    (d.write key content).content? k = if k = key then some content else d.content? k := by
  have hempty : key.isEmpty = false := by simpa using hkey
  by_cases hk : k = key
  · subst hk
    simp [content?, node?, write, lookup_setNode, hempty]
  · simp [content?, node?, write, lookup_setNode, hk]

/-- The key of a file that can be opened for reading. -/
def locateFile (d : Disk) (p : Path) : Except DiskCause Key :=
  match d.locate p with
  | .error cause => .error cause
  | .ok k =>
    match d.node? k with
    | some (.file _) => .ok k
    | some .directory => .error .isADirectory
    | none => .error .notFound

/-- The key of a file that can be opened for writing; the file itself may be missing, its directory
may not. -/
def locateTarget (d : Disk) (p : Path) : Except DiskCause Key :=
  match d.locate p with
  | .error cause => .error cause
  | .ok k =>
    match d.node? k with
    | some .directory => .error .isADirectory
    | _ => .ok k

/-! ### Open files -/

/-- An open file has nothing left to write. -/
def forget (d : Disk) (f : OpenFile) : Disk :=
  { d with unwritten := d.unwritten.filter fun text => text.1 != f.id }

/-- Opens the file under a key. It has nothing left to write. -/
def openKey (d : Disk) (k : Key) : OpenFile × Disk :=
  let f : OpenFile := ⟨d.nextId, k⟩
  (f, { d.forget f with nextId := d.nextId + 1 })

/-- The open file owns the lock of its file. -/
def owns (d : Disk) (f : OpenFile) : Bool := d.owners.lookup f.key == some f.id

/-- Takes the lock of a file, unless another open file owns it. -/
def tryLock (d : Disk) (f : OpenFile) : Option Disk :=
  match d.owners.lookup f.key with
  | none => some { d with owners := (f.key, f.id) :: d.owners }
  | some owner => if owner = f.id then some d else none

/-- Gives back the locks of an open file, as closing it does. -/
def unlock (d : Disk) (f : OpenFile) : Disk :=
  { d with owners := d.owners.filter fun owner => owner.2 != f.id }

/-! ### Texts left to write -/

/-- The text that an open file has left to write. -/
def unwritten? (d : Disk) (f : OpenFile) : Option Text := d.unwritten.lookup f.id

/-- An open file has a text left to write. -/
def leave (d : Disk) (f : OpenFile) (t : Text) : Disk :=
  { d with unwritten := (f.id, t) :: (d.forget f).unwritten }

/-- Writes what an open file has left to write, over the start of the file. It is lost where the file
is not there any more. -/
def flush (d : Disk) (f : OpenFile) : Disk :=
  match d.unwritten? f with
  | none => d
  | some t =>
    match d.content? f.key with
    | some content => (d.forget f).write f.key (content.overwrite t)
    | none => d.forget f

end Disk

end EquationSheet
