import EquationSheet.Proofs.LockKeeping
import EquationSheet.Proofs.Traces

/-!
# What the flags of a lock say

Any number of objects for locks are acquired and released in any order, also acquired again without
a release. Opening may be refused and giving back a lock may fail at any point. An object tells the
truth when it says that it is locked exactly while its open file owns the lock of the file on the
disk.

* `FileLock.honest`, `honest_eq`: objects with their flags put right, and that they are right.
* `acquire_renews`, `release_renews`: what acquiring and releasing do to an object, whatever it held
  before.
* `Ok`, `leaves_step`: the locks of the disk are those of the objects with their flags put right,
  and what an event does to the flags.
* `Stale`: the object said that it was locked when it was acquired without its file being opened for
  writing, and nothing has put its flag right since.
* `flags_tell_truth_unless_stale`: **flags tell the truth unless they are stale**.
-/

namespace EquationSheet

/-! ### Flags that are right -/

namespace FileLock

variable {l : FileLock} {d : Disk}

/-- The open file of the object owns the lock of its file. -/
def Owns (l : FileLock) (d : Disk) : Prop := ∃ f, l.file = some f ∧ d.owns f = true

/-- The object says that it is locked exactly when it owns the lock. -/
def TellsTruth (l : FileLock) (d : Disk) : Prop := l.locked = true ↔ l.Owns d

instance (l : FileLock) (d : Disk) : Decidable (l.TellsTruth d) :=
  decidable_of_iff (l.locked = true ↔ l.file.any d.owns = true) 
    (iff_congr Iff.rfl (Option.any_eq_true _ _))

/-- The object with its flag put right. -/
def honest (d : Disk) (l : FileLock) : FileLock := { l with locked := l.file.any d.owns }

theorem locked_honest : (honest d l).locked = true ↔ l.Owns d := Option.any_eq_true _ _

/-- The file can be opened for writing. -/
structure CanWrite (l : FileLock) (h : Host) : Prop where
  nameable : l.path.isNameable = true
  allowed : h.conditions.denial = .nothing
  located : ∃ k, h.disk.locateFile l.path = .ok k

/-- Acquiring is answered, but the file is not opened for writing. -/
def Fails (l : FileLock) (h : Host) : Prop :=
  h.conditions.denial = .everything ∨ l.path.isNameable = true ∧ ¬l.CanWrite h

theorem not_canWrite_of_fails {h : Host} (hfails : l.Fails h) : ¬l.CanWrite h := by
  intro hcan
  rcases hfails with hdenied | ⟨-, hnot⟩
  · rw [hcan.allowed] at hdenied
    exact absurd hdenied (by simp)
  · exact hnot hcan

end FileLock

namespace Disk

variable {d d' : Disk} {ls : List FileLock} {l : FileLock} {f : OpenFile}

open FileLock

theorem owns_iff : d.owns f = true ↔ d.owners.lookup f.key = some f.id := by
  simp [owns]

namespace OwnedBy

/-- The flags of the handles that the locks belong to are right. -/
theorem locked_iff (hd : d.OwnedBy ls) (hl : l ∈ ls) (hspent : l.spent = false)
    (hf : l.file = some f) : l.locked = true ↔ d.owns f = true := by
  rw [owns_iff]
  constructor
  · exact fun hlocked => hd.has l hl f ⟨hf, hlocked, hspent⟩
  · intro howns
    obtain ⟨l', hl', hf', hlocked, -⟩ := hd.exists_of_lookup howns
    -- the owner has the same number, so it is the same handle
    by_contra hflag
    have hne : l ≠ l' := by rintro rfl; exact hflag hlocked
    have hsymm : Std.Symm fun l l' : FileLock =>
        ∀ f f', l.file = some f → l'.file = some f' → f.id ≠ f'.id :=
      ⟨fun _ _ h f f' hf hf' => (h f' f hf' hf).symm⟩
    exact hd.apart.forall hl hl' hne f _ hf hf' rfl

/-- **A flag put right on one disk is right on another one** whose locks belong to the handle too. -/
theorem honest_eq (hd : d'.OwnedBy ls) (hl : honest d l ∈ ls) (hspent : l.spent = false) :
    honest d' l = honest d l := by
  cases hf : l.file with
  | none => simp [honest, hf]
  | some f =>
    have hsame : (honest d l).locked = d'.owns f :=
      Bool.eq_iff_iff.2 (hd.locked_iff hl hspent (show (honest d l).file = some f from hf))
    simp only [honest, hf, Option.any_some] at hsame ⊢
    rw [hsame]

/-- A handle without a file owns no lock. -/
theorem cons_closed (hd : d.OwnedBy ls) (hf : l.file = none) : d.OwnedBy (l :: ls) where
  owner k id hk := by
    obtain ⟨l', hl', hhas⟩ := hd.owner k id hk
    exact ⟨l', List.mem_cons_of_mem _ hl', hhas⟩
  has l' hl' f hhas := by
    rcases List.mem_cons.1 hl' with rfl | hmem
    · exact absurd (hf.symm.trans hhas.file) (by simp)
    · exact hd.has l' hmem f hhas
  opened l' hl' f hf' := by
    rcases List.mem_cons.1 hl' with rfl | hmem
    · rw [hf] at hf'
      exact absurd hf' (by simp)
    · exact hd.opened l' hmem f hf'
  apart := List.pairwise_cons.2 ⟨fun l' _ f _ hf' => by rw [hf] at hf'; exact absurd hf' (by simp),
    hd.apart⟩

end OwnedBy

end Disk

/-! ### What acquiring and releasing do -/

namespace FileLock

variable {l l' : FileLock} {h h' : Host} {ls : List FileLock} {k : Key} {f : OpenFile}

/-- Nothing was ever written: nothing is left to write, and the file held is not closed. -/
structure Unwritten (l : FileLock) (d : Disk) : Prop where
  spent : l.spent = false
  writeFault : l.writeFault = none
  disk : d.unwritten = []

theorem Unwritten.settled (hl : l.Unwritten d) : l.Settled d :=
  ⟨hl.spent, fun f _ => Disk.unwritten?_of_nil hl.disk f⟩

theorem Unwritten.openKey (hl : l.Unwritten d) (k : Key) : l.Unwritten (d.openKey k).2 :=
  ⟨hl.spent, hl.writeFault, List.subset_nil.1 (hl.disk ▸ (keeps_openKey d k).unwritten)⟩

theorem Unwritten.closeFile (hl : l.Unwritten d) : l.Unwritten (l.closeFile d) := by
  refine ⟨hl.spent, hl.writeFault, ?_⟩
  unfold FileLock.closeFile
  split
  · exact hl.disk
  · exact hl.disk

theorem drop_of_unwritten (hl : l.Unwritten h.disk) :
    l.drop h = h.withDisk (l.closeFile h.disk) := by
  unfold drop FileLock.closeFile
  split
  · rename_i f _
    have hnone := Disk.unwritten?_of_nil hl.disk f
    rw [Disk.forget_of_none hnone, Disk.flush_of_none hnone, ite_self]
  · rfl

/-- The old file is closed before anything else, as far as the disk shows. -/
theorem reopen_eq (hl : l.Unwritten h.disk) (k : Key) : l.reopen k h =
    (((l.closeFile h.disk).openKey k).1, h.withDisk ((l.closeFile h.disk).openKey k).2) := by
  have hopened : l.Unwritten (h.withDisk (h.disk.openKey k).2).disk := hl.openKey k
  unfold reopen
  simp only
  rw [drop_of_unwritten hopened]
  unfold FileLock.closeFile
  cases l.file <;> rfl

theorem locateFile_closeFile (l : FileLock) (d : Disk) (p : Path) :
    (l.closeFile d).locateFile p = d.locateFile p :=
  Disk.locateFile_of_nodes (l.closeFile_nodes d) p

/-- What became of an object whose flag should be as given. Its old file was closed; the file that
it has now, if any, was found where its path leads. No file of the disk has changed. -/
structure Renewed (l : FileLock) (h : Host) (l' : FileLock) (h' : Host) (flag : Bool) : Prop where
  path : l'.path = l.path
  nodes : h'.disk.nodes = h.disk.nodes
  unwritten : l'.Unwritten h'.disk
  located : ∀ f, l'.file = some f → h.disk.locateFile l.path = .ok f.key
  held : flag = true → ∃ f, l'.file = some f
  owned : ∀ ls, (l.closeFile h.disk).OwnedBy ls → h'.disk.OwnedBy ({ l' with locked := flag } :: ls)

/-- An object without a file is not locked. -/
theorem renewed_closed (hl : l.Unwritten h.disk) (hspent : l'.spent = false)
    (hfault : l'.writeFault = l.writeFault) (hpath : l'.path = l.path) (hfile : l'.file = none)
    (hdisk : h'.disk = l.closeFile h.disk) : l.Renewed h l' h' false where
  path := hpath
  nodes := (congrArg Disk.nodes hdisk).trans (l.closeFile_nodes h.disk)
  unwritten := ⟨hspent, hfault.trans hl.writeFault, hdisk ▸ hl.closeFile.disk⟩
  located f hf := absurd (hfile.symm.trans hf) (by simp)
  held := by simp
  owned ls hls := by
    rw [hdisk]
    exact hls.cons_closed hfile

/-- An object with a file that was opened after the old one was closed. -/
theorem renewed_opened (hl : l.Unwritten h.disk) (hpath : l'.path = l.path)
    (hopened : Opened l.path (h.withDisk (l.closeFile h.disk)) f { l' with locked := flag } h') :
    l.Renewed h l' h' flag where
  path := hpath
  nodes := hopened.keeps.nodes.trans (l.closeFile_nodes h.disk)
  unwritten := ⟨hopened.spent, hopened.writeFault,
    List.subset_nil.1 (hl.closeFile.disk ▸ hopened.keeps.unwritten)⟩
  located f' hf' := by
    obtain rfl := Option.some.inj (hopened.file.symm.trans hf')
    have hlocated := hopened.located
    rwa [Host.withDisk_disk, locateFile_closeFile] at hlocated
  held _ := ⟨f, hopened.file⟩
  owned ls hls := Disk.OwnedBy.opened_cons (h := h.withDisk (l.closeFile h.disk)) hls hopened

/-- An object whose file could not be opened has none. -/
theorem renewed_refused (hl : l.Unwritten h.disk) (cause : DiskCause) :
    l.Renewed h (l.refused cause h).1 (l.refused cause h).2 false :=
  renewed_closed hl rfl rfl rfl rfl (congrArg Host.disk (drop_of_unwritten hl))

/-- An object that may only read its file is not locked, whatever its flag says. -/
theorem acquireReadOnly_renews (hl : l.Unwritten h.disk) (hname : l.path.isNameable = true) :
    ∃ b l' h', l.acquireReadOnly h = ((b, l'), h') ∧ l'.locked = l.locked ∧
      l.Renewed h l' h' false := by
  unfold acquireReadOnly
  cases hk : h.disk.locateFile l.path with
  | error cause => exact ⟨false, _, _, rfl, rfl, renewed_refused hl cause⟩
  | ok k =>
    have hk' : (l.closeFile h.disk).locateFile l.path = .ok k := by rw [locateFile_closeFile, hk]
    simp only [reopen_eq hl]
    refine ⟨_, _, _, rfl, rfl, renewed_opened (f := ((l.closeFile h.disk).openKey k).1) hl rfl ?_⟩
    exact ⟨hname, rfl, rfl, hl.writeFault, Disk.unwritten?_forget _ _, rfl, rfl, keeps_openKey _ k,
      hk', by simp, by simp, .inl rfl⟩

/-- An object that opens its file for writing says whether it got the lock. -/
theorem acquireWritable_renews (hl : l.Unwritten h.disk) (hname : l.path.isNameable = true) :
    ∃ b l' h', l.acquireWritable h = ((b, l'), h') ∧
      ((∃ k, h.disk.locateFile l.path = .ok k) ∧ l.Renewed h l' h' l'.locked ∨
        (∀ k, h.disk.locateFile l.path ≠ .ok k) ∧ l'.locked = l.locked ∧
          l.Renewed h l' h' false) := by
  unfold acquireWritable
  cases hk : h.disk.locateFile l.path with
  | error cause =>
    exact ⟨false, _, _, rfl, .inr ⟨by simp, rfl, renewed_refused hl cause⟩⟩
  | ok k =>
    have hk' : (l.closeFile h.disk).locateFile l.path = .ok k := by rw [locateFile_closeFile, hk]
    obtain ⟨l', h', htake, hpath, hopened⟩ :=
      opened_takeLock (h := h.withDisk (l.closeFile h.disk)) hname hk' hl.writeFault
    simp only [reopen_eq hl]
    exact ⟨true, l', h', htake, .inl ⟨⟨k, rfl⟩, renewed_opened hl hpath hopened⟩⟩

/-- **Acquiring** opens the file for writing, and the flag says whether it is locked. Or it fails:
the file is not open for writing, so it is not locked, and the flag is as before. Or it ends in a
fault, and nothing happens. -/
theorem acquire_renews (hl : l.Unwritten h.disk) :
    (∃ fault, l.acquire h = (.error fault, h) ∧ ¬l.Fails h ∧ ¬l.CanWrite h) ∨
    ∃ b l' h', l.acquire h = (.ok (b, l'), h') ∧
      (l.CanWrite h ∧ l.Renewed h l' h' l'.locked ∨
        l.Fails h ∧ l'.locked = l.locked ∧ l.Renewed h l' h' false) := by
  unfold acquire
  by_cases hall : h.conditions.denial = .everything
  · rw [if_pos hall]
    exact .inr ⟨false, _, _, rfl, .inr ⟨.inl hall, rfl, renewed_refused hl _⟩⟩
  rw [if_neg hall]
  by_cases hname : l.path.isNameable = true
  · simp only [hname, Bool.not_true, Bool.false_eq_true, if_false]
    right
    by_cases hwriting : h.conditions.denial = .writing
    · obtain ⟨b, l', h', hacquire, hsame, hrenewed⟩ := acquireReadOnly_renews hl hname
      have hnot : ¬l.CanWrite h := fun hcan => by
        rw [hcan.allowed] at hwriting
        simp at hwriting
      rw [if_pos hwriting, hacquire]
      exact ⟨b, l', h', rfl, .inr ⟨.inr ⟨hname, hnot⟩, hsame, hrenewed⟩⟩
    · obtain ⟨b, l', h', hacquire, hcases⟩ := acquireWritable_renews hl hname
      have hallowed : h.conditions.denial = .nothing := by
        cases hdenial : h.conditions.denial with
        | nothing => rfl
        | writing => exact absurd hdenial hwriting
        | everything => exact absurd hdenial hall
      rw [if_neg hwriting, hacquire]
      refine ⟨b, l', h', rfl, ?_⟩
      rcases hcases with ⟨hlocated, hrenewed⟩ | ⟨hmissing, hsame, hrenewed⟩
      · exact .inl ⟨⟨hname, hallowed, hlocated⟩, hrenewed⟩
      · have hnot : ¬l.CanWrite h := fun ⟨_, _, k, hk⟩ => hmissing k hk
        exact .inr ⟨.inr ⟨hname, hnot⟩, hsame, hrenewed⟩
  · rw [if_pos (by simpa using hname)]
    refine .inl ⟨.badPath, rfl, ?_, fun hcan => hname hcan.nameable⟩
    rintro (heverything | ⟨hnameable, -⟩)
    · exact hall heverything
    · exact hname hnameable

/-- **Releasing** closes the file, and the object is not locked any more. -/
theorem release_renews (hl : l.Unwritten h.disk) (hf : l.file = some f) :
    (l.release h).1.locked = false ∧ l.Renewed h (l.release h).1 (l.release h).2 false := by
  have hlock : (l.release h).1 = { l with file := none, locked := false } :=
    release_of_settled hl.settled hf
  exact ⟨by rw [hlock], renewed_closed hl (by rw [hlock]; exact hl.spent) (by rw [hlock])
    (by rw [hlock]) (by rw [hlock]) (release_disk hl.settled)⟩

/-- Without a file nothing happens. -/
theorem release_of_closed (l : FileLock) (h : Host) (hf : l.file = none) : l.release h = (l, h) := by
  unfold release tryRelease
  rw [hf]

end FileLock

/-! ### Objects, acquired and released -/

namespace LockFlags

open FileLock

/-- What happens to the objects, which are numbered, under the conditions of the moment. -/
inductive Event
  | acquires (i : ℕ) (c : Conditions)
  | releases (i : ℕ) (c : Conditions)

/-- A host and the objects for its locks. -/
structure World where
  host : Host
  locks : List FileLock

namespace World

def disk (w : World) : Disk := w.host.disk

/-- The host under the conditions of an event. -/
def under (w : World) (c : Conditions) : Host := { w.host with conditions := c }

/-- An acquire that ends in a fault leaves the object as it is. -/
def acquire (w : World) (i : ℕ) (c : Conditions) : World :=
  match w.locks[i]? with
  | none => w
  | some l =>
    match l.acquire (w.under c) with
    | (.error _, h) => { w with host := h }
    | (.ok (_, l), h) => ⟨h, w.locks.set i l⟩

def release (w : World) (i : ℕ) (c : Conditions) : World :=
  match w.locks[i]? with
  | none => w
  | some l => ⟨(l.release (w.under c)).2, w.locks.set i (l.release (w.under c)).1⟩

def step (w : World) : Event → World
  | .acquires i c => w.acquire i c
  | .releases i c => w.release i c

/-- A disk with any files, and objects for the locks at some paths, of which none was acquired. -/
def init (nodes : List (Key × Node)) (paths : List Path) : World :=
  ⟨{ disk := { nodes := nodes } }, paths.map fun p => { path := p }⟩

/-- The object says that it is locked, and is acquired without its file being opened for writing. -/
def Deceives (w : World) (e : Event) (i : ℕ) : Prop :=
  ∃ c l, e = .acquires i c ∧ w.locks[i]? = some l ∧ l.locked = true ∧ l.Fails (w.under c)

/-- The object is acquired and its file is opened for writing, or it is released. -/
def Repairs (w : World) (e : Event) (i : ℕ) : Prop :=
  (∃ c l, e = .acquires i c ∧ w.locks[i]? = some l ∧ l.CanWrite (w.under c)) ∨
    ∃ c l f, e = .releases i c ∧ w.locks[i]? = some l ∧ l.file = some f

end World

/-- The locks of the disk are those of the objects, with the flags put right, and who owns a lock
says so. Open files are where their paths lead. -/
structure Ok (w : World) : Prop where
  owned : w.disk.OwnedBy (w.locks.map (honest w.disk))
  admits : ∀ l ∈ w.locks, l.Owns w.disk → l.locked = true
  located : ∀ l ∈ w.locks, ∀ f, l.file = some f → w.disk.locateFile l.path = .ok f.key
  unwritten : ∀ l ∈ w.locks, l.Unwritten w.disk

variable {w : World} {l l' : FileLock} {h : Host} {i j : ℕ} {flag : Bool} {e : Event}

theorem ok_init (nodes : List (Key × Node)) (paths : List Path) : Ok (World.init nodes paths) := by
  have hclosed : ∀ l ∈ (World.init nodes paths).locks, l.file = none := by
    intro l hl
    obtain ⟨p, -, rfl⟩ := List.mem_map.1 hl
    rfl
  refine ⟨?_, fun l hl howns => ?_, fun l hl f hf => ?_, fun l hl => ?_⟩
  · suffices h : ∀ ls : List FileLock, (∀ l ∈ ls, l.file = none) →
        (World.init nodes paths).disk.OwnedBy (ls.map (honest (World.init nodes paths).disk)) from
      h _ hclosed
    intro ls hls
    induction ls with
    | nil => exact .nil rfl
    | cons l ls ih =>
      have hrest := ih fun l hl => hls l (List.mem_cons_of_mem _ hl)
      exact hrest.cons_closed (hls l List.mem_cons_self)
  · obtain ⟨f, hf, -⟩ := howns
    rw [hclosed l hl] at hf
    exact absurd hf (by simp)
  · rw [hclosed l hl] at hf
    exact absurd hf (by simp)
  · obtain ⟨p, -, rfl⟩ := List.mem_map.1 hl
    exact ⟨rfl, rfl, rfl⟩

/-- **An object is renewed**: its flag should be as given, and the others are as right as before. -/
theorem Ok.replace (hw : Ok w) {c : Conditions} (hl : w.locks[i]? = some l)
    (hrenewed : l.Renewed (w.under c) l' h flag) (hflag : flag = true → l'.locked = true) :
    Ok ⟨h, w.locks.set i l'⟩ ∧ (l'.Owns h.disk ↔ flag = true) ∧
      ∀ j ≠ i, ∀ l₁, w.locks[j]? = some l₁ → (l₁.Owns h.disk ↔ l₁.Owns w.disk) := by
  obtain ⟨hi, rfl⟩ := List.getElem?_eq_some_iff.1 hl
  set others := w.locks.eraseIdx i with hothers
  have hperm : w.locks.Perm (w.locks[i] :: others) := (List.getElem_cons_eraseIdx_perm hi).symm
  have hperm' : (w.locks.set i l').Perm (l' :: others) := List.set_perm_cons_eraseIdx hi l'
  -- the old file is closed, and then the new one is opened
  have hbefore : w.disk.OwnedBy (honest w.disk w.locks[i] :: others.map (honest w.disk)) :=
    hw.owned.perm (hperm.map (honest w.disk))
  have hafter := hrenewed.owned _ hbefore.closed
  have hspent : ∀ l₁ ∈ others, l₁.Unwritten w.disk :=
    fun l₁ hl₁ => hw.unwritten l₁ (List.mem_of_mem_eraseIdx hl₁)
  have hmap : others.map (honest h.disk) = others.map (honest w.disk) :=
    List.map_congr_left fun l₁ hl₁ =>
      hafter.honest_eq (List.mem_cons_of_mem _ (List.mem_map_of_mem hl₁)) (hspent l₁ hl₁).spent
  have hkept : ∀ l₁ ∈ others, (l₁.Owns h.disk ↔ l₁.Owns w.disk) := by
    intro l₁ hl₁
    rw [← locked_honest, ← locked_honest, List.map_inj_left.1 hmap l₁ hl₁]
  have howns : l'.Owns h.disk ↔ flag = true := by
    constructor
    · rintro ⟨f, hf, howns⟩
      exact (hafter.locked_iff List.mem_cons_self hrenewed.unwritten.spent hf).2 howns
    · intro hflag
      obtain ⟨f, hf⟩ := hrenewed.held hflag
      exact ⟨f, hf, (hafter.locked_iff List.mem_cons_self hrenewed.unwritten.spent hf).1 hflag⟩
  have hright : honest h.disk l' = { l' with locked := flag } := by
    have hlocked : (honest h.disk l').locked = flag := Bool.eq_iff_iff.2 (locked_honest.trans howns)
    exact congrArg (fun flag => { l' with locked := flag }) hlocked
  refine ⟨⟨?_, fun l₁ hl₁ howns₁ => ?_, fun l₁ hl₁ f hf => ?_, fun l₁ hl₁ => ?_⟩, howns,
    fun j hj l₁ hl₁ => ?_⟩
  · rw [← hright, ← hmap] at hafter
    exact hafter.perm (hperm'.map (honest h.disk)).symm
  · rcases List.mem_cons.1 (hperm'.mem_iff.1 hl₁) with rfl | hother
    · exact hflag (howns.1 howns₁)
    · exact hw.admits l₁ (List.mem_of_mem_eraseIdx hother) ((hkept l₁ hother).1 howns₁)
  · have hnodes : h.disk.nodes = w.disk.nodes := hrenewed.nodes
    rw [show (World.mk h _).disk = h.disk from rfl, Disk.locateFile_of_nodes hnodes]
    rcases List.mem_cons.1 (hperm'.mem_iff.1 hl₁) with rfl | hother
    · rw [hrenewed.path]
      exact hrenewed.located f hf
    · exact hw.located l₁ (List.mem_of_mem_eraseIdx hother) f hf
  · rcases List.mem_cons.1 (hperm'.mem_iff.1 hl₁) with rfl | hother
    · exact hrenewed.unwritten
    · exact ⟨(hspent l₁ hother).spent, (hspent l₁ hother).writeFault, hrenewed.unwritten.disk⟩
  · exact hkept l₁ (List.mem_eraseIdx_iff_getElem?.2 ⟨j, hj, hl₁⟩)

/-! ### One event -/

/-- What an event leaves behind: the object that deceives lies, the one that is put right tells the
truth, and the others do as before. -/
def Leaves (w : World) (e : Event) (w' : World) : Prop :=
  Ok w' ∧ ∀ i l', w'.locks[i]? = some l' →
    (w.Deceives e i → ¬l'.TellsTruth w'.disk) ∧
    (w.Repairs e i → l'.TellsTruth w'.disk) ∧
    (¬w.Deceives e i → ¬w.Repairs e i →
      ∃ l, w.locks[i]? = some l ∧ (l'.TellsTruth w'.disk ↔ l.TellsTruth w.disk))

/-- An event that neither deceives nor repairs leaves everything as it was. -/
theorem leaves_self {w' : World} (hw : Ok w) (hdisk : w'.disk = w.disk) (hlocks : w'.locks = w.locks)
    (hdeceives : ∀ i, ¬w.Deceives e i) (hrepairs : ∀ i, ¬w.Repairs e i) : Leaves w e w' := by
  refine ⟨⟨?_, ?_, ?_, ?_⟩, fun i l' hl' => ⟨fun h => absurd h (hdeceives i),
    fun h => absurd h (hrepairs i), fun _ _ => ⟨l', hlocks ▸ hl', by rw [hdisk]⟩⟩⟩
  · rw [hdisk, hlocks]
    exact hw.owned
  · rw [hdisk, hlocks]
    exact hw.admits
  · rw [hdisk, hlocks]
    exact hw.located
  · rw [hdisk, hlocks]
    exact hw.unwritten

/-- An event that concerns one object. -/
theorem leaves_set {c : Conditions} (hw : Ok w) (hl : w.locks[i]? = some l)
    (hrenewed : l.Renewed (w.under c) l' h flag) (hflag : flag = true → l'.locked = true)
    (honly : ∀ j ≠ i, ¬w.Deceives e j ∧ ¬w.Repairs e j)
    (hself : (l'.Owns h.disk ↔ flag = true) →
      (w.Deceives e i → ¬l'.TellsTruth h.disk) ∧ (w.Repairs e i → l'.TellsTruth h.disk) ∧
      (¬w.Deceives e i → ¬w.Repairs e i → (l'.TellsTruth h.disk ↔ l.TellsTruth w.disk))) :
    Leaves w e ⟨h, w.locks.set i l'⟩ := by
  obtain ⟨hok, howns, hothers⟩ := hw.replace hl hrenewed hflag
  refine ⟨hok, fun j l₁ hl₁ => ?_⟩
  have hi : i < w.locks.length := (List.getElem?_eq_some_iff.1 hl).1
  by_cases hj : j = i
  · subst hj
    obtain rfl : l' = l₁ := by simpa [List.getElem?_set_self hi] using hl₁
    obtain ⟨hlies, htells, hsame⟩ := hself howns
    exact ⟨hlies, htells, fun hd hr => ⟨l, hl, hsame hd hr⟩⟩
  · rw [List.getElem?_set_ne (Ne.symm hj)] at hl₁
    have hsame : l₁.TellsTruth h.disk ↔ l₁.TellsTruth w.disk := by
      unfold TellsTruth
      rw [hothers j hj l₁ hl₁]
    exact ⟨fun hd => absurd hd (honly j hj).1, fun hr => absurd hr (honly j hj).2,
      fun _ _ => ⟨l₁, hl₁, hsame⟩⟩

theorem not_deceives_release {c : Conditions} : ¬w.Deceives (.releases i c) j := by
  rintro ⟨c', l, he, -⟩
  exact absurd he (by simp)

theorem deceives_acquire {c : Conditions} : w.Deceives (.acquires i c) j ↔
    i = j ∧ ∃ l, w.locks[i]? = some l ∧ l.locked = true ∧ l.Fails (w.under c) := by
  constructor
  · rintro ⟨c', l, he, hl, hfails⟩
    obtain ⟨rfl, rfl⟩ := Event.acquires.inj he
    exact ⟨rfl, l, hl, hfails⟩
  · rintro ⟨rfl, l, hl, hfails⟩
    exact ⟨c, l, rfl, hl, hfails⟩

theorem repairs_acquire {c : Conditions} : w.Repairs (.acquires i c) j ↔
    i = j ∧ ∃ l, w.locks[i]? = some l ∧ l.CanWrite (w.under c) := by
  constructor
  · rintro (⟨c', l, he, hl, hcan⟩ | ⟨c', l, f, he, -⟩)
    · obtain ⟨rfl, rfl⟩ := Event.acquires.inj he
      exact ⟨rfl, l, hl, hcan⟩
    · exact absurd he (by simp)
  · rintro ⟨rfl, l, hl, hcan⟩
    exact .inl ⟨c, l, rfl, hl, hcan⟩

theorem repairs_release {c : Conditions} : w.Repairs (.releases i c) j ↔
    i = j ∧ ∃ l f, w.locks[i]? = some l ∧ l.file = some f := by
  constructor
  · rintro (⟨c', l, he, -⟩ | ⟨c', l, f, he, hl, hf⟩)
    · exact absurd he (by simp)
    · obtain ⟨rfl, rfl⟩ := Event.releases.inj he
      exact ⟨rfl, l, f, hl, hf⟩
  · rintro ⟨rfl, l, f, hl, hf⟩
    exact .inr ⟨c, l, f, rfl, hl, hf⟩

theorem leaves_acquire (hw : Ok w) (i : ℕ) (c : Conditions) :
    Leaves w (.acquires i c) (w.acquire i c) := by
  unfold World.acquire
  cases hl : w.locks[i]? with
  | none => exact leaves_self hw rfl rfl (by simp [deceives_acquire, hl]) (by simp [repairs_acquire, hl])
  | some l =>
    have hdeceives : ∀ j, w.Deceives (.acquires i c) j ↔ i = j ∧ l.locked = true ∧ l.Fails (w.under c) := by
      simp [deceives_acquire, hl]
    have hrepairs : ∀ j, w.Repairs (.acquires i c) j ↔ i = j ∧ l.CanWrite (w.under c) := by
      simp [repairs_acquire, hl]
    have honly : ∀ j ≠ i, ¬w.Deceives (.acquires i c) j ∧ ¬w.Repairs (.acquires i c) j :=
      fun j hj => ⟨fun h => hj ((hdeceives j).1 h).1.symm, fun h => hj ((hrepairs j).1 h).1.symm⟩
    have hunwritten : l.Unwritten (w.under c).disk := hw.unwritten l (List.mem_of_getElem? hl)
    rcases acquire_renews hunwritten with ⟨fault, hacquire, hfails, hcan⟩ |
      ⟨b, l', h, hacquire, ⟨hcan, hrenewed⟩ | ⟨hfails, hsame, hrenewed⟩⟩
    · -- a fault, which leaves everything as it was
      simp only [hacquire]
      exact leaves_self hw rfl rfl (fun j hj => hfails ((hdeceives j).1 hj).2.2)
        (fun j hj => hcan ((hrepairs j).1 hj).2)
    · -- the file is opened for writing, and the flag is set
      simp only [hacquire]
      refine leaves_set hw hl hrenewed id honly fun howns => ⟨fun hd => ?_, fun _ => howns.symm,
        fun _ hr => absurd ((hrepairs i).2 ⟨rfl, hcan⟩) hr⟩
      exact absurd hcan (not_canWrite_of_fails ((hdeceives i).1 hd).2.2)
    · -- the file is not opened for writing, and the flag is forgotten
      simp only [hacquire]
      refine leaves_set hw hl hrenewed (by simp) honly fun howns => ?_
      have hnot : ¬l'.Owns h.disk := fun h => absurd (howns.1 h) (by simp)
      refine ⟨fun hd htruth => hnot (htruth.1 (hsame.trans ((hdeceives i).1 hd).2.1)), fun hr => ?_,
        fun hd _ => ?_⟩
      · exact absurd ((hrepairs i).1 hr).2 (not_canWrite_of_fails hfails)
      · have hunlocked : ¬l.locked = true := fun hlocked => hd ((hdeceives i).2 ⟨rfl, hlocked, hfails⟩)
        have hbefore : ¬l.Owns w.disk :=
          fun howns => hunlocked (hw.admits l (List.mem_of_getElem? hl) howns)
        unfold TellsTruth
        rw [hsame]
        exact iff_of_true (iff_of_false hunlocked hnot) (iff_of_false hunlocked hbefore)

theorem leaves_release (hw : Ok w) (i : ℕ) (c : Conditions) :
    Leaves w (.releases i c) (w.release i c) := by
  unfold World.release
  cases hl : w.locks[i]? with
  | none => exact leaves_self hw rfl rfl (fun j => not_deceives_release) (by simp [repairs_release, hl])
  | some l =>
    have hrepairs : ∀ j, w.Repairs (.releases i c) j ↔ i = j ∧ ∃ f, l.file = some f := by
      simp [repairs_release, hl]
    cases hf : l.file with
    | none =>
      have hsame := l.release_of_closed (w.under c) hf
      simp only [hsame]
      refine leaves_self hw rfl ?_ (fun j => not_deceives_release) (by simp [hrepairs, hf])
      obtain ⟨hi, rfl⟩ := List.getElem?_eq_some_iff.1 hl
      exact List.set_getElem_self hi
    | some f =>
      have hunwritten : l.Unwritten (w.under c).disk := hw.unwritten l (List.mem_of_getElem? hl)
      obtain ⟨hunlocked, hrenewed⟩ := release_renews hunwritten hf
      refine leaves_set hw hl hrenewed (by simp) (fun j hj => ⟨not_deceives_release,
        fun h => hj ((hrepairs j).1 h).1.symm⟩) fun howns => ⟨fun hd => absurd hd not_deceives_release,
        fun _ => ?_, fun _ hr => absurd ((hrepairs i).2 ⟨rfl, f, hf⟩) hr⟩
      rw [TellsTruth, hunlocked]
      exact howns.symm

/-- **What an event does to the flags.** -/
theorem leaves_step (hw : Ok w) (e : Event) : Leaves w e (w.step e) := by
  cases e with
  | acquires i c => exact leaves_acquire hw i c
  | releases i c => exact leaves_release hw i c

/-! ### Runs -/

variable {nodes : List (Key × Node)} {paths : List Path} {es : List Event} {m n : ℕ}

/-- The objects after the first `n` events. -/
def worldAfter (nodes : List (Key × Node)) (paths : List Path) (es : List Event) (n : ℕ) : World :=
  stateAfter World.step (World.init nodes paths) es n

/-- The object said that it was locked when it was acquired without its file being opened for
writing, and nothing has put its flag right since. -/
def Stale (nodes : List (Key × Node)) (paths : List Path) (es : List Event) (n i : ℕ) : Prop :=
  ∃ m < n, (∃ e, es[m]? = some e ∧ (worldAfter nodes paths es m).Deceives e i) ∧
    ∀ m', m < m' → m' < n → ∀ e, es[m']? = some e → ¬(worldAfter nodes paths es m').Repairs e i

theorem not_stale_zero : ¬Stale nodes paths es 0 i := by
  rintro ⟨m, hm, -⟩
  exact absurd hm (Nat.not_lt_zero m)

theorem stale_succ (he : es[n]? = some e) : Stale nodes paths es (n + 1) i ↔
    (worldAfter nodes paths es n).Deceives e i ∨
      Stale nodes paths es n i ∧ ¬(worldAfter nodes paths es n).Repairs e i := by
  constructor
  · rintro ⟨m, hm, hdeceives, hsince⟩
    rcases Nat.lt_succ_iff_lt_or_eq.1 hm with hlt | rfl
    · exact .inr ⟨⟨m, hlt, hdeceives, fun m' hmm' hm' => hsince m' hmm' (Nat.lt_succ_of_lt hm')⟩,
        hsince n hlt (Nat.lt_succ_self n) e he⟩
    · obtain ⟨e', he', hdeceives⟩ := hdeceives
      obtain rfl := Option.some.inj (he.symm.trans he')
      exact .inl hdeceives
  · rintro (hdeceives | ⟨⟨m, hm, hdeceives, hsince⟩, hrepairs⟩)
    · exact ⟨n, Nat.lt_succ_self n, ⟨e, he, hdeceives⟩, fun m' hm hm' => by omega⟩
    · refine ⟨m, Nat.lt_succ_of_lt hm, hdeceives, fun m' hmm' hm' e' he' => ?_⟩
      rcases Nat.lt_succ_iff_lt_or_eq.1 hm' with hlt | rfl
      · exact hsince m' hmm' hlt e' he'
      · obtain rfl := Option.some.inj (he.symm.trans he')
        exact hrepairs

theorem stale_succ_none (he : es[n]? = none) :
    Stale nodes paths es (n + 1) i ↔ Stale nodes paths es n i := by
  have hend : ∀ m e, es[m]? = some e → m < n := fun m e hm =>
    (List.getElem?_eq_some_iff.1 hm).1.trans_le (List.getElem?_eq_none_iff.1 he)
  constructor
  · rintro ⟨m, -, ⟨e, hm, hdeceives⟩, hsince⟩
    exact ⟨m, hend m e hm, ⟨e, hm, hdeceives⟩,
      fun m' hmm' hm' => hsince m' hmm' (Nat.lt_succ_of_lt hm')⟩
  · rintro ⟨m, hm, hdeceives, hsince⟩
    exact ⟨m, Nat.lt_succ_of_lt hm, hdeceives,
      fun m' hmm' _ e hm' => hsince m' hmm' (hend m' e hm') e hm'⟩

/-- **Flags along a run**: those of the objects that are not stale tell the truth. -/
theorem tellsTruth_run (nodes : List (Key × Node)) (paths : List Path) (es : List Event) (n : ℕ) :
    Ok (worldAfter nodes paths es n) ∧ ∀ i l, (worldAfter nodes paths es n).locks[i]? = some l →
      (l.TellsTruth (worldAfter nodes paths es n).disk ↔ ¬Stale nodes paths es n i) := by
  induction n with
  | zero =>
    rw [worldAfter, stateAfter_zero]
    refine ⟨ok_init nodes paths, fun i l hl => iff_of_true ?_ not_stale_zero⟩
    obtain ⟨p, -, rfl⟩ := List.mem_map.1 (List.mem_of_getElem? hl)
    simp [TellsTruth, Owns]
  | succ n ih =>
    obtain ⟨hok, hflags⟩ := ih
    cases he : es[n]? with
    | none =>
      simp only [worldAfter, stateAfter_succ_none he, stale_succ_none he]
      exact ⟨hok, hflags⟩
    | some e =>
      obtain ⟨hok', hleaves⟩ := leaves_step hok e
      rw [worldAfter, stateAfter_succ he]
      refine ⟨hok', fun i l' hl' => ?_⟩
      obtain ⟨hlies, htells, hsame⟩ := hleaves i l' hl'
      rw [stale_succ he]
      by_cases hdeceives : (worldAfter nodes paths es n).Deceives e i
      · exact iff_of_false (hlies hdeceives) (not_not.2 (.inl hdeceives))
      by_cases hrepairs : (worldAfter nodes paths es n).Repairs e i
      · refine iff_of_true (htells hrepairs) ?_
        rintro (hd | ⟨-, hr⟩)
        · exact hdeceives hd
        · exact hr hrepairs
      · obtain ⟨l, hl, hiff⟩ := hsame hdeceives hrepairs
        refine hiff.trans ((hflags i l hl).trans (not_congr ?_))
        simp [hdeceives, hrepairs]

/-- The lock of a file has one owner. -/
theorem eq_of_owns (hw : Ok w) {f f' : OpenFile} (hl : w.locks[i]? = some l)
    (hl' : w.locks[j]? = some l') (hf : l.file = some f) (hf' : l'.file = some f')
    (hkey : f.key = f'.key) (howns : w.disk.owns f = true) (howns' : w.disk.owns f' = true) :
    i = j := by
  have hid : f.id = f'.id := by
    rw [Disk.owns_iff] at howns howns'
    exact Option.some.inj (howns.symm.trans (hkey ▸ howns'))
  obtain ⟨hi, rfl⟩ := List.getElem?_eq_some_iff.1 hl
  obtain ⟨hj, rfl⟩ := List.getElem?_eq_some_iff.1 hl'
  have hapart := List.pairwise_iff_getElem.1 (List.pairwise_map.1 hw.owned.apart)
  rcases Nat.lt_trichotomy i j with hlt | rfl | hlt
  · exact absurd hid (hapart i j hi hj hlt f f' hf hf')
  · rfl
  · exact absurd hid.symm (hapart j i hj hi hlt f' f hf' hf)

/-- **Flags tell the truth unless they are stale.** Any number of objects for locks are acquired and
released in any order, under conditions that change at any point. Then

* the flag of an object is right, that is, it is set exactly while the open file of the object owns
  the lock of its file, if and only if the flag is not stale;
* who owns a lock says so, stale or not;
* of the objects for one file whose flags are not stale, at most one is locked. -/
theorem flags_tell_truth_unless_stale (nodes : List (Key × Node)) (paths : List Path)
    (es : List Event) (n : ℕ) :
    (∀ i l, (worldAfter nodes paths es n).locks[i]? = some l →
      (l.TellsTruth (worldAfter nodes paths es n).disk ↔ ¬Stale nodes paths es n i)) ∧
    (∀ l ∈ (worldAfter nodes paths es n).locks,
      l.Owns (worldAfter nodes paths es n).disk → l.locked = true) ∧
    (∀ i j l l' k, (worldAfter nodes paths es n).locks[i]? = some l →
      (worldAfter nodes paths es n).locks[j]? = some l' →
      (worldAfter nodes paths es n).disk.locateFile l.path = .ok k →
      (worldAfter nodes paths es n).disk.locateFile l'.path = .ok k →
      ¬Stale nodes paths es n i → ¬Stale nodes paths es n j →
      l.locked = true → l'.locked = true → i = j) := by
  obtain ⟨hok, hflags⟩ := tellsTruth_run nodes paths es n
  refine ⟨hflags, hok.admits, fun i j l l' k hl hl' hk hk' hi hj hlocked hlocked' => ?_⟩
  obtain ⟨f, hf, howns⟩ := ((hflags i l hl).2 hi).1 hlocked
  obtain ⟨f', hf', howns'⟩ := ((hflags j l' hl').2 hj).1 hlocked'
  have hkey : f.key = k :=
    Except.ok.inj ((hok.located l (List.mem_of_getElem? hl) f hf).symm.trans hk)
  have hkey' : f'.key = k :=
    Except.ok.inj ((hok.located l' (List.mem_of_getElem? hl') f' hf').symm.trans hk')
  exact eq_of_owns hok hl hl' hf hf' (hkey.trans hkey'.symm) howns howns'

/-! ### A flag that lies -/

/-- One sheet. -/
def sheetNodes : List (Key × Node) := [(["a.txt".toList], .file (.text "\"x\"=1mm\n".toList))]

/-- Two objects for the sheet. -/
def sheetPaths : List Path := [⟨['/'], ["a.txt".toList]⟩, ⟨['/'], ["a.txt".toList]⟩]

/-- The first object is acquired, and again while the sheet may not be written. Then the second one
is acquired. -/
def deniedAgain : List Event :=
  [.acquires 0 {}, .acquires 0 { denial := .writing }, .acquires 1 {}]

/-- In the end both objects say that they are locked. The first one owns no lock. -/
theorem acquired_again_lies : ∃ l l', (worldAfter sheetNodes sheetPaths deniedAgain 3).locks = [l, l'] ∧
    l.locked = true ∧ l'.locked = true ∧
    ¬l.TellsTruth (worldAfter sheetNodes sheetPaths deniedAgain 3).disk ∧
    l'.TellsTruth (worldAfter sheetNodes sheetPaths deniedAgain 3).disk :=
  ⟨_, _, rfl, by decide +kernel, by decide +kernel, by decide +kernel, by decide +kernel⟩

end LockFlags

end EquationSheet
