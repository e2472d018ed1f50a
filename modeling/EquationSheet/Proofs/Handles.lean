import EquationSheet.Proofs.CleanSlots

/-!
# What a handle does to its disk

The three operations on the handle of a sheet, each with all it can do: a handle is opened on the
current text of its file, closing it frees its lock, and setting a number writes the file only
through a lock that is held.

* `Disk.Keeps`: files are unchanged, and open files keep their locks.
* `load_cases`: opening finds no file, or opens one at its current text.
* `FileLock.tryRelease_cases`, `FileLock.write_cases`: all that releasing a lock and writing can do.
* `FileLock.write_outcome`, `FileLock.write_of_closed`: what a write comes to, on a file that is open
  and on one that is not.
* `close_disk`, `close_file`: closing frees the lock.
* `setOne_cases`: a set writes one file, or leaves the disk as it was.
-/

namespace EquationSheet

namespace Disk

variable {d d' d'' : Disk} {f : OpenFile} {k : Key}

/-- The files are the same, and no more is left to write to them; the files that were open before
still own their locks. -/
structure Keeps (d d' : Disk) : Prop where
  nodes : d'.nodes = d.nodes
  nextId : d.nextId ≤ d'.nextId
  owners : ∀ k id, id < d.nextId → d.owners.lookup k = some id → d'.owners.lookup k = some id
  unwritten : d'.unwritten ⊆ d.unwritten

theorem Keeps.refl (d : Disk) : d.Keeps d := ⟨rfl, le_rfl, fun _ _ _ h => h, List.Subset.refl _⟩

/-! What the paths lead to depends on the nodes only. -/

theorem node?_of_nodes (h : d'.nodes = d.nodes) (k : Key) : d'.node? k = d.node? k := by
  unfold node?
  rw [h]

theorem content?_of_nodes (h : d'.nodes = d.nodes) (k : Key) : d'.content? k = d.content? k := by
  unfold content?
  rw [node?_of_nodes h]

theorem walk_of_nodes (h : d'.nodes = d.nodes) (here : Key) (parts : List Text) :
    d'.walk here parts = d.walk here parts := by
  induction parts generalizing here with
  | nil => rfl
  | cons part rest ih => simp only [walk, node?_of_nodes h, ih]

theorem locateFile_of_nodes (h : d'.nodes = d.nodes) (p : Path) :
    d'.locateFile p = d.locateFile p := by
  unfold locateFile locate
  simp only [walk_of_nodes h, node?_of_nodes h]

theorem pathExists_of_nodes (h : d'.nodes = d.nodes) (p : Path) :
    d'.pathExists p = d.pathExists p := by
  unfold pathExists locate
  simp only [walk_of_nodes h, node?_of_nodes h]

theorem lookup_filter_ne {owners : List (Key × ℕ)} {id other : ℕ}
    (h : owners.lookup k = some id) (hne : id ≠ other) :
    (owners.filter fun owner => owner.2 != other).lookup k = some id := by
  induction owners with
  | nil => simp at h
  | cons owner owners ih =>
    obtain ⟨k', id'⟩ := owner
    by_cases hk : k = k'
    · subst hk
      obtain rfl : id' = id := by simpa using h
      rw [List.filter_cons_of_pos (by simpa using hne)]
      simp
    · rw [List.lookup_cons, beq_false_of_ne hk] at h
      rw [List.filter_cons]
      split
      · rw [List.lookup_cons, beq_false_of_ne hk]
        exact ih h
      · exact ih h

/-- Freeing the locks of one open file leaves the locks of the others. -/
theorem lookup_unlock {id : ℕ} (h : d.owners.lookup k = some id) (hne : id ≠ f.id) :
    (d.unlock f).owners.lookup k = some id := lookup_filter_ne h hne

theorem Keeps.unlock (h : d.Keeps d') (hf : f.id = d.nextId) : d.Keeps (d'.unlock f) :=
  ⟨h.nodes, h.nextId, fun k id hid hk => lookup_unlock (h.owners k id hid hk) (by omega),
    h.unwritten⟩

/-- Taking a lock leaves the locks of other files. It is new, or was taken before. -/
theorem keeps_of_tryLock (h : d.tryLock f = some d') : d.Keeps d' ∧ d'.nextId = d.nextId ∧
    d'.unwritten = d.unwritten ∧ d'.owners.lookup f.key = some f.id ∧
    (d'.owners = d.owners ∨ d.owners.lookup f.key = none ∧ d'.owners = (f.key, f.id) :: d.owners) := by
  unfold tryLock at h
  split at h
  · -- nobody owned the lock, so no owner is hidden by the new one
    rename_i hnone
    obtain rfl := Option.some.inj h
    refine ⟨⟨rfl, le_rfl, fun k id _ hk => ?_, List.Subset.refl _⟩, rfl, rfl, by simp,
      .inr ⟨hnone, rfl⟩⟩
    have hne : k ≠ f.key := by rintro rfl; simp [hnone] at hk
    simp [List.lookup_cons, beq_false_of_ne hne, hk]
  · rename_i owner howner
    split at h
    · rename_i heq
      obtain rfl := Option.some.inj h
      exact ⟨.refl d, rfl, rfl, by rw [howner, heq], .inl rfl⟩
    · simp at h

theorem isFile_of_locateFile {p : Path} (h : d.locateFile p = .ok k) :
    ∃ content, d.content? k = some content := by
  unfold locateFile at h
  split at h
  · simp at h
  · split at h
    · rename_i content hnode
      obtain rfl := Except.ok.inj h
      exact ⟨content, content?_eq_some_iff.2 hnode⟩
    · simp at h
    · simp at h

theorem ne_nil_of_content? {content : Content} (h : d.content? k = some content) : k ≠ [] := by
  rintro rfl
  simp [content?, node?] at h

/-! ### Nothing left to write -/

theorem unwritten?_of_nil (h : d.unwritten = []) (f : OpenFile) : d.unwritten? f = none := by
  simp [unwritten?, h]

@[simp] theorem unwritten?_forget (d : Disk) (f : OpenFile) : (d.forget f).unwritten? f = none := by
  refine List.lookup_eq_none_iff.2 fun text htext => ?_
  have hne := (List.mem_filter.1 htext).2
  rwa [bne_comm] at hne

theorem forget_subset (d : Disk) (f : OpenFile) : (d.forget f).unwritten ⊆ d.unwritten :=
  fun _ htext => (List.mem_filter.1 htext).1

theorem forget_of_none (h : d.unwritten? f = none) : d.forget f = d := by
  have hall : ∀ text ∈ d.unwritten, (text.1 != f.id) = true := fun text htext => by
    have hne := List.lookup_eq_none_iff.1 h text htext
    rwa [bne_comm]
  unfold forget
  rw [List.filter_eq_self.2 hall]

theorem flush_of_none (h : d.unwritten? f = none) : d.flush f = d := by
  unfold flush
  rw [h]

end Disk

/-! ### Opening -/

/-- The lock holds the file at a path, which was opened just now. Unless it may only be read, it owns
the lock of the file; only from a bundle is a file written without. Whatever it owns it says so, and
it took it from nobody. -/
structure FileLock.Opened (p : Path) (h : Host) (f : OpenFile) (l : FileLock) (h' : Host) :
    Prop where
  nameable : p.isNameable = true
  file : l.file = some f
  spent : l.spent = false
  writeFault : l.writeFault = none
  written : h'.disk.unwritten? f = none
  id : f.id = h.disk.nextId
  nextId : h'.disk.nextId = h.disk.nextId + 1
  keeps : h.disk.Keeps h'.disk
  located : h.disk.locateFile p = .ok f.key
  owns : h.conditions.bundled = false → l.readonly = false →
    h'.disk.owners.lookup f.key = some f.id
  locked : l.locked = true → h'.disk.owners.lookup f.key = some f.id
  owners : h'.disk.owners = h.disk.owners ∨ l.locked = true ∧
    h.disk.owners.lookup f.key = none ∧ h'.disk.owners = (f.key, f.id) :: h.disk.owners

namespace FileLock

theorem keeps_openKey (d : Disk) (k : Key) : d.Keeps (d.openKey k).2 :=
  ⟨rfl, Nat.le_succ _, fun _ _ _ hk => hk, Disk.forget_subset d _⟩

/-- **A file that is opened for writing** is opened with its lock, unless another open file owns it.
-/
theorem opened_takeLock {p : Path} {h : Host} {k : Key} (hname : p.isNameable = true)
    (hk : h.disk.locateFile p = .ok k) {l : FileLock} (hl : l.writeFault = none) :
    ∃ l' h', l.takeLock (h.disk.openKey k).1 (h.withDisk (h.disk.openKey k).2) = ((true, l'), h') ∧
      l'.path = l.path ∧ Opened p h (h.disk.openKey k).1 l' h' := by
  have hkeeps := keeps_openKey h.disk k
  have hwritten : (h.disk.openKey k).2.unwritten? (h.disk.openKey k).1 = none :=
    Disk.unwritten?_forget h.disk _
  unfold takeLock
  simp only [Host.withDisk_disk]
  split
  · -- the lock is free
    rename_i d htry
    obtain ⟨hkeeps', hnext, hsame, howns, howners⟩ := Disk.keeps_of_tryLock htry
    refine ⟨_, _, rfl, rfl, hname, rfl, rfl, hl, ?_, rfl, hnext, ?_, hk, fun _ _ => howns,
      fun _ => howns, howners.imp_right fun hnew => ⟨rfl, hnew⟩⟩
    · rw [← hwritten]
      exact congrArg (List.lookup _) hsame
    exact ⟨hkeeps'.nodes.trans hkeeps.nodes, hkeeps.nextId.trans hkeeps'.nextId,
      fun k id hid hk => hkeeps'.owners k id (Nat.lt_succ_of_lt hid) (hkeeps.owners k id hid hk),
      List.Subset.trans hkeeps'.unwritten hkeeps.unwritten⟩
  · -- another open file owns it
    refine ⟨_, _, rfl, rfl, hname, rfl, rfl, hl, hwritten, rfl, rfl, hkeeps, hk, fun hb hs => ?_,
      by simp, .inl rfl⟩
    simp [hb] at hs

/-- **A file that may be opened** is opened. -/
theorem acquire_of_located {p : Path} {h : Host} {k : Key} (hname : p.isNameable = true)
    (hk : h.disk.locateFile p = .ok k) (hallowed : h.conditions.denial ≠ .everything) :
    ∃ l h', ({ path := p } : FileLock).acquire h = (.ok (true, l), h') ∧
      Opened p h (h.disk.openKey k).1 l h' := by
  unfold acquire
  simp only [if_neg hallowed, hname, Bool.not_true, Bool.false_eq_true, if_false]
  split
  · -- the file may only be read
    refine ⟨{ path := p, file := some (h.disk.openKey k).1, readonly := true },
      h.withDisk (h.disk.openKey k).2, by simp only [acquireReadOnly, hk, reopen, drop], ?_⟩
    exact ⟨hname, rfl, rfl, rfl, Disk.unwritten?_forget h.disk _, rfl, rfl, keeps_openKey _ k, hk,
      by simp, by simp, .inl rfl⟩
  · obtain ⟨l', h', htake, -, hopened⟩ := opened_takeLock hname hk (l := { path := p }) rfl
    exact ⟨l', h', by simp only [acquireWritable, hk, reopen, drop, htake], hopened⟩

/-- Acquiring the lock of a file leaves the disk as it was, or opens the file. -/
theorem acquire_cases (p : Path) (h : Host) :
    (∃ r h', ({ path := p } : FileLock).acquire h = (r, h') ∧ (∀ l, r ≠ .ok (true, l)) ∧
      h'.disk = h.disk) ∨
    (∃ f l h', ({ path := p } : FileLock).acquire h = (.ok (true, l), h') ∧
      Opened p h f l h') := by
  by_cases hall : h.conditions.denial = .everything
  · unfold acquire
    rw [if_pos hall]
    exact .inl ⟨_, _, rfl, by simp, rfl⟩
  by_cases hname : p.isNameable = true
  · cases hk : h.disk.locateFile p with
    | error cause =>
      unfold acquire acquireReadOnly acquireWritable
      simp only [if_neg hall, hname, hk, Bool.not_true, Bool.false_eq_true, if_false, ite_self]
      exact .inl ⟨_, _, rfl, by simp, rfl⟩
    | ok k =>
      obtain ⟨l, h', hacquire, hopened⟩ := acquire_of_located hname hk hall
      exact .inr ⟨_, l, h', hacquire, hopened⟩
  · unfold acquire
    rw [if_neg hall, if_pos (by simpa using hname)]
    exact .inl ⟨_, _, rfl, by simp, rfl⟩

theorem closeFile_nodes (l : FileLock) (d : Disk) : (l.closeFile d).nodes = d.nodes := by
  unfold closeFile
  split <;> rfl

/-- **Releasing a lock** does nothing where no file is held; where the file was closed before it lets
go of it; where what is left to write cannot be written it closes the file and fails; and else it
writes what is left, closes the file and lets go of it. -/
theorem tryRelease_cases (l : FileLock) (h : Host) :
    (l.file = none ∧ l.tryRelease h = (.ok (), l, h)) ∨
    ∃ f, l.file = some f ∧
      ((l.spent = true ∧ l.tryRelease h = (if l.locked then .error (.file .closed) else .ok (),
        { l with file := none, locked := false, spent := false }, h)) ∨
      (l.spent = false ∧ h.conditions.closeFails = true ∧ h.disk.unwritten? f ≠ none ∧
        ∃ h', l.tryRelease h = (.error (.file .diskFull), { l with spent := true }, h') ∧
          h'.conditions = h.conditions ∧ h'.disk = (h.disk.forget f).unlock f) ∨
      (l.spent = false ∧ (h.conditions.closeFails = false ∨ h.disk.unwritten? f = none) ∧
        ∃ h', l.tryRelease h = (.ok (), { l with file := none, locked := false }, h') ∧
          h'.conditions = h.conditions ∧ h'.disk = (h.disk.flush f).unlock f)) := by
  unfold tryRelease
  cases hfile : l.file with
  | none => exact .inl ⟨rfl, rfl⟩
  | some f =>
    refine .inr ⟨f, rfl, ?_⟩
    cases hspent : l.spent with
    | true => simp
    | false =>
      right
      simp only [Bool.false_eq_true, if_false]
      -- a warning is all that a lock that cannot be given back leaves
      generalize hh : (if (l.locked && h.conditions.unlockFails) = true then _ else h) = h₁
      obtain ⟨hdisk, hconditions⟩ : h₁.disk = h.disk ∧ h₁.conditions = h.conditions := by
        subst hh
        split <;> exact ⟨rfl, rfl⟩
      rw [hdisk, hconditions]
      by_cases hfails : (h.conditions.closeFails && (h.disk.unwritten? f).isSome) = true
      · rw [if_pos hfails]
        obtain ⟨hclose, hleft⟩ := Bool.and_eq_true_iff.1 hfails
        exact .inl ⟨trivial, hclose, Option.isSome_iff_ne_none.1 hleft, _, rfl, hconditions, rfl⟩
      · rw [if_neg hfails]
        refine .inr ⟨trivial, ?_, _, rfl, hconditions, rfl⟩
        simpa [Classical.or_iff_not_imp_left] using hfails

/-- Releasing keeps the conditions. -/
theorem conditions_tryRelease (l : FileLock) (h : Host) :
    (l.tryRelease h).2.2.conditions = h.conditions := by
  rcases l.tryRelease_cases h with ⟨-, hout⟩ | ⟨f, -, ⟨-, hout⟩ |
    ⟨-, -, -, h', hout, hsame, -⟩ | ⟨-, -, h', hout, hsame, -⟩⟩ <;> rw [hout]
  · exact hsame
  · exact hsame

/-- A release holds the same file as before, or none. -/
theorem tryRelease_file (l : FileLock) (h : Host) :
    (l.tryRelease h).2.1.file = l.file ∨ (l.tryRelease h).2.1.file = none := by
  rcases l.tryRelease_cases h with ⟨-, hout⟩ | ⟨f, -, ⟨-, hout⟩ |
    ⟨-, -, -, h', hout, -, -⟩ | ⟨-, -, h', hout, -, -⟩⟩ <;> rw [hout]
  · exact .inl rfl
  · exact .inr rfl
  · exact .inl rfl
  · exact .inr rfl

/-- A release that does not fail holds none. -/
theorem tryRelease_file_of_ok {l : FileLock} {h : Host} {u : Unit}
    (hok : (l.tryRelease h).1 = .ok u) : (l.tryRelease h).2.1.file = none := by
  rcases l.tryRelease_cases h with ⟨hfile, hout⟩ | ⟨f, -, ⟨-, hout⟩ |
    ⟨-, -, -, h', hout, -, -⟩ | ⟨-, -, h', hout, -, -⟩⟩ <;> rw [hout] at hok ⊢
  · exact hfile
  · simp at hok

/-- **Writing a text** is refused, which changes nothing, or it replaces the text of an open file, or it
fails there at a stage. -/
theorem write_cases (l : FileLock) (t : Text) (h : Host) :
    (∃ fault, l.write t h = (.error (.file fault), h) ∧ (fault = .closed → l.spent = true)) ∨
    ∃ f, l.file = some f ∧ l.readonly = false ∧ l.spent = false ∧
      ((l.failingStage h = none ∧
        l.write t h = (.ok (), h.withDisk ((h.disk.forget f).write f.key (.text t)))) ∨
      ∃ stage, l.failingStage h = some stage ∧ stage ≠ .start ∧
        l.write t h = (.error (.file .diskFull), h.withDisk (diskAfter h.disk f t stage))) := by
  unfold write
  split
  · exact .inl ⟨_, rfl, by simp⟩
  rename_i hstart
  cases hfile : l.file with
  | none => exact .inl ⟨_, rfl, by simp⟩
  | some f =>
    simp only
    split
    · exact .inl ⟨_, rfl, by simp⟩
    split
    · exact .inl ⟨_, rfl, fun _ => by assumption⟩
    rename_i hread hspent
    refine .inr ⟨f, rfl, by simpa using hread, by simpa using hspent, ?_⟩
    cases hstage : l.failingStage h with
    | none => exact .inl ⟨rfl, rfl⟩
    | some stage => exact .inr ⟨stage, rfl, fun heq => hstart (by rw [hstage, heq]), rfl⟩

/-- **A file that is open and may be written** takes a text exactly if its write fails at no stage. -/
theorem write_outcome {l : FileLock} {h : Host} {f : OpenFile} (hfile : l.file = some f)
    (hrights : l.readonly = false) (hspent : l.spent = false) (new : Text) : (l.write new h).1 =
      if l.failingStage h = none then .ok () else .error (.file .diskFull) := by
  unfold write
  simp only [hfile, hrights, hspent, Bool.false_eq_true, if_false]
  cases l.failingStage h with
  | none => simp
  | some stage => by_cases hstart : stage = .start <;> simp [hstart]

/-- The file held is open: no release that failed has closed it. -/
structure IsOpen (l : FileLock) : Prop where
  file : l.file.isSome = true
  spent : l.spent = false

/-- Why a file that is not open refuses a text. -/
def refusal (l : FileLock) (h : Host) : FileFault :=
  if l.failingStage h = some .start then .diskFull
  else if l.file.isSome then .closed
  else .notWritable

/-- **A file that is not open** refuses every text. -/
theorem write_of_closed {l : FileLock} {h : Host} (hclosed : ¬l.IsOpen)
    (hrights : l.readonly = false) (t : Text) : l.write t h = (.error (.file (l.refusal h)), h) := by
  unfold write refusal
  by_cases hstart : l.failingStage h = some .start
  · simp only [if_pos hstart]
  simp only [if_neg hstart]
  cases hfile : l.file with
  | none => rfl
  | some f =>
    have hspent : l.spent = true := by
      by_contra hopen
      exact hclosed ⟨by rw [hfile]; rfl, Bool.eq_false_iff.2 hopen⟩
    simp [hrights, hspent]

/-- Whatever comes of a release, the file is not open any more. -/
theorem not_isOpen_tryRelease (l : FileLock) (h : Host) : ¬(l.tryRelease h).2.1.IsOpen := by
  rintro ⟨hfile, hspent⟩
  rcases l.tryRelease_cases h with ⟨hnone, hout⟩ | ⟨f, -, ⟨-, hout⟩ |
    ⟨-, -, -, h', hout, -, -⟩ | ⟨-, -, h', hout, -, -⟩⟩ <;> rw [hout] at hfile hspent
  · simp [hnone] at hfile
  · simp at hfile
  · simp at hspent
  · simp at hfile

theorem tryRelease_readonly (l : FileLock) (h : Host) :
    (l.tryRelease h).2.1.readonly = l.readonly := by
  rcases l.tryRelease_cases h with ⟨-, hout⟩ | ⟨f, -, ⟨-, hout⟩ |
    ⟨-, -, -, h', hout, -, -⟩ | ⟨-, -, h', hout, -, -⟩⟩ <;> rw [hout]

/-- The file held, if any, is still open and has nothing left to write. -/
structure Settled (l : FileLock) (d : Disk) : Prop where
  spent : l.spent = false
  written : ∀ f, l.file = some f → d.unwritten? f = none

theorem Opened.settled {p : Path} {h h' : Host} {f : OpenFile} {l : FileLock}
    (hopened : Opened p h f l h') : l.Settled h'.disk := by
  refine ⟨hopened.spent, fun f' hf' => ?_⟩
  obtain rfl := Option.some.inj (hopened.file.symm.trans hf')
  exact hopened.written

/-- Where nothing is left to write a file is closed, also where giving back its lock fails. -/
theorem tryRelease_of_settled {l : FileLock} {h : Host} (hl : l.Settled h.disk) :
    (l.tryRelease h).1 = .ok () ∧ (l.tryRelease h).2.1.file = none ∧
      (l.tryRelease h).2.2.disk = l.closeFile h.disk := by
  rcases l.tryRelease_cases h with ⟨hfile, hout⟩ | ⟨f, hfile, ⟨hspent, -⟩ | ⟨-, -, hleft, -⟩ |
    ⟨-, -, h', hout, -, hdisk⟩⟩
  · simp [hout, closeFile, hfile]
  · rw [hl.spent] at hspent
    simp at hspent
  · exact absurd (hl.written f hfile) hleft
  · rw [hout, closeFile, hfile]
    exact ⟨rfl, rfl, by rw [hdisk, Disk.flush_of_none (hl.written f hfile)]⟩

/-- Closing a file frees its locks, also where giving them back fails. -/
theorem release_disk {l : FileLock} {h : Host} (hl : l.Settled h.disk) :
    (l.release h).2.disk = l.closeFile h.disk := (tryRelease_of_settled hl).2.2

theorem release_of_settled {l : FileLock} {h : Host} {f : OpenFile} (hl : l.Settled h.disk)
    (hf : l.file = some f) : (l.release h).1 = { l with file := none, locked := false } := by
  rcases l.tryRelease_cases h with ⟨hfile, -⟩ | ⟨f', hfile, ⟨hspent, -⟩ | ⟨-, -, hleft, -⟩ |
    ⟨-, -, h', hout, -⟩⟩
  · rw [hf] at hfile
    simp at hfile
  · rw [hl.spent] at hspent
    simp at hspent
  · exact absurd (hl.written f' hfile) hleft
  · rw [release, hout]

theorem release_spent {l : FileLock} {h : Host} (hl : l.Settled h.disk) :
    (l.release h).1.spent = false := by
  cases hf : l.file with
  | none =>
    rw [release, tryRelease, hf]
    exact hl.spent
  | some f =>
    rw [release_of_settled hl hf]
    exact hl.spent

/-- No file is open at a path: there was none to open, or it was closed again at once. -/
def Shut (p : Path) (h h' : Host) : Prop :=
  h'.disk = h.disk ∨ ∃ f l h₁, Opened p h f l h₁ ∧ h'.disk = l.closeFile h₁.disk

theorem Shut.keeps {p : Path} {h h' : Host} (hshut : Shut p h h') : h.disk.Keeps h'.disk := by
  rcases hshut with hsame | ⟨f, l, h₁, hopened, hclosed⟩
  · rw [hsame]
    exact .refl _
  · rw [hclosed, closeFile, hopened.file]
    exact hopened.keeps.unlock hopened.id

end FileLock

namespace SheetFile

variable {s : SheetFile} {h : Host}

/-- **Opening a sheet** finds no file, or opens one and finds its current slots. -/
theorem load_cases (p : Path) (h : Host) :
    (∃ fault h', load p h = (.error fault, h') ∧ FileLock.Shut p h h') ∨
    (∃ s f t h', load p h = (.ok s, h') ∧ FileLock.Opened p h f s.lock h' ∧
      h.disk.content? f.key = some (.text t) ∧ s.slots = Sheet.split t) := by
  unfold load
  rcases FileLock.acquire_cases p h with ⟨r, h', hr, hne, hdisk⟩ | ⟨f, l, h', hr, hopened⟩
  · -- no file was opened, so none has to be closed again
    rw [hr]
    left
    split
    · rename_i heq
      obtain ⟨-, rfl⟩ := Prod.mk.inj heq
      exact ⟨_, _, rfl, .inl hdisk⟩
    · rename_i heq
      obtain ⟨-, rfl⟩ := Prod.mk.inj heq
      exact ⟨_, _, rfl, .inl hdisk⟩
    · rename_i heq
      exact absurd (Prod.mk.inj heq).1 (hne _)
  · rw [hr]
    simp only [FileLock.read, hopened.file]
    obtain ⟨content, hcontent⟩ := Disk.isFile_of_locateFile hopened.located
    rw [Disk.content?_of_nodes hopened.keeps.nodes, hcontent]
    cases content with
    | text t =>
      refine .inr ⟨_, f, t, _, rfl, ?_, hcontent, Sheet.split_unifyNewlines t⟩
      exact { hopened with }
    | binary bytes =>
      -- what cannot be decoded is closed again
      exact .inl ⟨_, _, rfl, .inr ⟨f, l, h', hopened, rfl⟩⟩

theorem shut_of_load {p : Path} {fault : Fault} {h' : Host} (hload : load p h = (.error fault, h')) :
    FileLock.Shut p h h' := by
  rcases load_cases p h with ⟨_, h₁, hload', hshut⟩ | ⟨_, _, _, _, hload', -⟩
  · obtain ⟨-, rfl⟩ := Prod.mk.inj (hload.symm.trans hload')
    exact hshut
  · rw [hload] at hload'
    simp at hload'

theorem opened_of_load {p : Path} {h' : Host} (hload : load p h = (.ok s, h')) :
    ∃ f, FileLock.Opened p h f s.lock h' := by
  rcases load_cases p h with ⟨_, _, hload', -⟩ | ⟨s', f, _, h₁, hload', hopened, -⟩
  · rw [hload] at hload'
    simp at hload'
  · obtain ⟨hs, rfl⟩ := Prod.mk.inj (hload.symm.trans hload')
    obtain rfl := Except.ok.inj hs
    exact ⟨f, hopened⟩

/-! ### Closing -/

theorem close_file (hs : s.lock.Settled h.disk) : (s.close h).1.lock.file = none :=
  (FileLock.tryRelease_of_settled hs).2.1

theorem close_spent (hs : s.lock.Settled h.disk) : (s.close h).1.lock.spent = false :=
  FileLock.release_spent hs

theorem close_disk (hs : s.lock.Settled h.disk) :
    (s.close h).2.disk = s.lock.closeFile h.disk := FileLock.release_disk hs

/-! ### Setting -/

/-- A slot is given a new text exactly if the write fails at no stage. -/
theorem setText_outcome {f : OpenFile} {t : Text} {index : ℤ} {i : ℕ}
    (hfile : s.lock.file = some f) (hrights : s.readonly = false)
    (hspent : s.lock.spent = false) (hposition : position? s.slots.length index = some i) :
    (s.setText index t h).1 = if s.lock.failingStage h = none then
        .ok { s with slots := s.slots.set i t }
      else .error (.file .diskFull) := by
  have hwrite := s.lock.write_outcome (h := h) hfile hrights hspent (Sheet.join (s.slots.set i t))
  unfold setText
  simp only [hrights, hposition, Bool.false_eq_true, if_false]
  generalize s.lock.write (Sheet.join (s.slots.set i t)) h = out at hwrite ⊢
  obtain ⟨result, h'⟩ := out
  by_cases hfault : s.lock.failingStage h = none
  · rw [if_pos hfault] at hwrite ⊢
    subst hwrite
    rfl
  · rw [if_neg hfault] at hwrite ⊢
    subst hwrite
    rfl

theorem eq_of_position?_natCast {count i n : ℕ} (h : position? count (n : ℤ) = some i) : i = n := by
  unfold position? at h
  rw [if_pos (Int.natCast_nonneg n)] at h
  split at h
  · simpa using h.symm
  · simp at h

/-- **Setting a value** writes the file through a lock that is held, or changes nothing. A write
that fails before it touches the file changes nothing either. -/
theorem setOne_cases (s : SheetFile) (name : Text) (v : Scalar) (h : Host)
    (hleft : h.disk.unwritten = [])
    (hfault : s.lock.failingStage h = none ∨ s.lock.failingStage h = some .start) :
    (∃ f r, s.lock.file = some f ∧ s.readonly = false ∧ s.lock.failingStage h = none ∧
      Store.plan s.slots name v = .ok (some r) ∧
      (Store.setOne (.file s) name v h).1 =
        .ok (some r, .file { s with slots := s.slots.set r.index r.after }) ∧
      (Store.setOne (.file s) name v h).2.disk =
        h.disk.write f.key (.text (Sheet.join (s.slots.set r.index r.after)))) ∨
    ((∀ r source, (Store.setOne (.file s) name v h).1 ≠ .ok (some r, source)) ∧
      (Store.setOne (.file s) name v h).2.disk = h.disk) := by
  unfold Store.setOne
  simp only [SlotSource.texts]
  cases hplan : Store.plan s.slots name v with
  | error fault => exact .inr ⟨by simp, rfl⟩
  | ok planned =>
    cases planned with
    | none => exact .inr ⟨by simp, rfl⟩
    | some r =>
      simp only [SlotSource.setText, setText]
      by_cases hread : s.readonly = true
      · rw [if_pos hread]
        exact .inr ⟨by simp, rfl⟩
      rw [if_neg hread]
      cases hpos : position? s.slots.length r.index with
      | none => exact .inr ⟨by simp, rfl⟩
      | some i =>
        obtain rfl := eq_of_position?_natCast hpos
        simp only [FileLock.write]
        rcases hfault with hnone | hstart
        · cases hfile : s.lock.file with
          | none => exact .inr ⟨by simp [hnone], by simp [hnone]⟩
          | some f =>
            have hlock : s.lock.readonly = false := by simpa [readonly] using hread
            cases hspent : s.lock.spent with
            | true => exact .inr ⟨by simp [hnone, hlock], by simp [hnone, hlock]⟩
            | false =>
              left
              refine ⟨f, r, rfl, hlock, hnone, rfl, ?_, ?_⟩
              · simp [hnone, hlock]
              · simp [hnone, hlock, Disk.forget_of_none (Disk.unwritten?_of_nil hleft f)]
        · exact .inr ⟨by simp [hstart], by simp [hstart]⟩

end SheetFile

/-! ### Conditions -/

namespace FileLock

theorem conditions_drop (l : FileLock) (h : Host) : (l.drop h).conditions = h.conditions := by
  unfold drop
  split <;> rfl

theorem conditions_takeLock (l : FileLock) (f : OpenFile) (h : Host) :
    (l.takeLock f h).2.conditions = h.conditions := by
  unfold takeLock
  split <;> rfl

theorem conditions_acquireReadOnly (l : FileLock) (h : Host) :
    (l.acquireReadOnly h).2.conditions = h.conditions := by
  unfold acquireReadOnly
  split
  · exact l.conditions_drop h
  · exact l.conditions_drop _

theorem conditions_acquireWritable (l : FileLock) (h : Host) :
    (l.acquireWritable h).2.conditions = h.conditions := by
  unfold acquireWritable
  split
  · exact l.conditions_drop h
  · exact (l.conditions_takeLock _ _).trans (l.conditions_drop _)

theorem conditions_acquire (l : FileLock) (h : Host) :
    (l.acquire h).2.conditions = h.conditions := by
  unfold acquire
  split
  · exact l.conditions_drop h
  split
  · rfl
  simp only
  split
  · exact l.conditions_acquireReadOnly h
  · exact l.conditions_acquireWritable h

theorem conditions_write (l : FileLock) (t : Text) (h : Host) :
    (l.write t h).2.conditions = h.conditions := by
  rcases l.write_cases t h with ⟨_, hwrite, -⟩ | ⟨f, -, -, -, ⟨-, hwrite⟩ | ⟨_, -, -, hwrite⟩⟩ <;>
    rw [hwrite] <;> rfl

end FileLock

theorem SheetFile.conditions_load (p : Path) (h : Host) :
    (SheetFile.load p h).2.conditions = h.conditions := by
  have hacquire := ({ path := p } : FileLock).conditions_acquire h
  unfold SheetFile.load
  generalize ({ path := p } : FileLock).acquire h = out at hacquire ⊢
  rcases out with ⟨fault | ⟨_ | _, lock⟩, h'⟩
  · exact hacquire
  · exact hacquire
  · simp only
    split <;> exact hacquire

theorem SheetFile.conditions_setText (s : SheetFile) (index : ℤ) (t : Text) (h : Host) :
    (s.setText index t h).2.conditions = h.conditions := by
  unfold SheetFile.setText
  split
  · rfl
  split
  · rfl
  rename_i i _
  have hwrite := s.lock.conditions_write (Sheet.join (s.slots.set i t)) h
  simp only
  generalize s.lock.write (Sheet.join (s.slots.set i t)) h = out at hwrite ⊢
  rcases out with ⟨_ | _, h'⟩ <;> exact hwrite

theorem SlotSource.conditions_setText (source : SlotSource) (index : ℕ) (t : Text) (h : Host) :
    (source.setText index t h).2.conditions = h.conditions := by
  cases source with
  | memory slots refuses =>
    simp only [SlotSource.setText]
    split
    · rfl
    · split <;> rfl
  | file s =>
    have hsheet := s.conditions_setText index t h
    simp only [SlotSource.setText]
    generalize s.setText index t h = out at hsheet ⊢
    rcases out with ⟨_ | _, h'⟩ <;> exact hsheet

/-- Setting a value keeps the conditions. -/
theorem Store.conditions_setOne (source : SlotSource) (name : Text) (v : Scalar) (h : Host) :
    (Store.setOne source name v h).2.conditions = h.conditions := by
  unfold Store.setOne
  split
  · rfl
  · rfl
  · rename_i r _
    have hset := source.conditions_setText r.index r.after h
    generalize source.setText r.index r.after h = out at hset ⊢
    rcases out with ⟨_ | _, h'⟩ <;> exact hset

end EquationSheet
