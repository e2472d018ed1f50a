import EquationSheet.Proofs.Handles
import EquationSheet.Proofs.JsonLevels

/-!
# What stays the same on a disk

Making directories changes no file. Settings are written to one file, and a value is set in one
file. Paths without double dots lead to the key of their parts.

* `Disk.extends_makeDirectories`: directories are made where nothing was.
* `locate_eq`: where a path without double dots leads.
* `Settings.save_cases`: saving settings writes at most the file at their path.
* `Disk.Touches`: one file that is open was written, or has something else left to write.
* `Store.writes_setOne`: setting a value touches at most the file that is held open.
* `FileLock.due`, `content?_tryRelease`: closing a file writes what was left to write to it.
* `sidecarKey_injective`, `sidecarKey_ne`: the settings of sheets are kept apart from each other and
  from the sheets.
-/

namespace EquationSheet

open Text

/-! ### Directories -/

namespace Disk

variable {d d' : Disk} {p : Path} {k : Key}

/-- Writing one file leaves every other one. -/
theorem content?_write_of_ne {key : Key} (h : k ≠ key) (content : Content) :
    (d.write key content).content? k = d.content? k := by
  unfold content? node? write
  simp only [lookup_setNode, if_neg h]

/-- Directories were made where nothing was, and no more. -/
structure Extends (d d' : Disk) : Prop where
  owners : d'.owners = d.owners
  nextId : d'.nextId = d.nextId
  unwritten : d'.unwritten = d.unwritten
  node : ∀ k, d'.node? k = d.node? k ∨ d.node? k = none ∧ d'.node? k = some .directory

theorem Extends.refl (d : Disk) : d.Extends d := ⟨rfl, rfl, rfl, fun _ => .inl rfl⟩

theorem Extends.trans {d'' : Disk} (h : d.Extends d') (h' : d'.Extends d'') : d.Extends d'' where
  owners := h'.owners.trans h.owners
  nextId := h'.nextId.trans h.nextId
  unwritten := h'.unwritten.trans h.unwritten
  node k := by
    rcases h.node k with hsame | ⟨hnone, hmade⟩
    · rw [← hsame]
      exact h'.node k
    · rcases h'.node k with hsame | ⟨hmissing, -⟩
      · exact .inr ⟨hnone, hsame.trans hmade⟩
      · rw [hmade] at hmissing
        exact absurd hmissing (by simp)

theorem Extends.content? (h : d.Extends d') (k : Key) : d'.content? k = d.content? k := by
  unfold Disk.content?
  rcases h.node k with hsame | ⟨hnone, hmade⟩
  · rw [hsame]
  · rw [hnone, hmade]

theorem Extends.directory (h : d.Extends d') (hk : d.node? k = some .directory) :
    d'.node? k = some .directory := by
  rcases h.node k with hsame | ⟨-, hmade⟩
  · rw [hsame, hk]
  · exact hmade

theorem extends_makeDirectory (h : d.makeDirectory p = .ok d') : d.Extends d' := by
  unfold makeDirectory at h
  split at h
  · simp at h
  rename_i made hmade
  split at h
  · simp at h
  rename_i hnode
  obtain rfl := Except.ok.inj h
  have hlookup : d.nodes.lookup made = none := by
    unfold node? at hnode
    split at hnode
    · simp at hnode
    · exact hnode
  -- the new directory is found last, and only where there was nothing
  refine ⟨rfl, rfl, rfl, fun k => ?_⟩
  by_cases hk : k = made
  · subst hk
    refine .inr ⟨hnode, ?_⟩
    have hroot : k.isEmpty = false := by
      cases k with
      | nil => simp [node?] at hnode
      | cons part rest => rfl
    simp [node?, hroot, List.lookup_append, hlookup]
  · left
    unfold node?
    simp only [List.lookup_append, List.lookup_cons, beq_false_of_ne hk, List.lookup_nil,
      Option.or_none]

theorem extends_ensureDirectory (d : Disk) (p : Path) : d.Extends (d.ensureDirectory p).2 := by
  unfold ensureDirectory
  split
  · rename_i hmade
    exact extends_makeDirectory hmade
  · exact .refl d

theorem extends_makeParts (d : Disk) (root : Text) (levels : ℕ) (parts : List Text) :
    d.Extends (d.makeParts root levels parts).2 := by
  induction parts generalizing levels with
  | nil =>
    simp only [makeParts]
    exact .refl d
  | cons part above ih =>
    simp only [makeParts]
    split
    · rename_i hmade
      exact extends_makeDirectory hmade
    · -- the directory above is missing and is made first
      cases levels with
      | zero => exact .refl d
      | succ levels =>
        have habove := ih levels
        simp only
        split
        · rename_i hparents
          rw [hparents] at habove
          exact habove
        · rename_i hparents
          rw [hparents] at habove
          exact habove.trans (extends_ensureDirectory _ _)
    · exact .refl d

/-- **Making directories changes nothing that was there.** -/
theorem extends_makeDirectories (d : Disk) (levels : ℕ) (p : Path) :
    d.Extends (d.makeDirectories levels p).2 :=
  extends_makeParts d _ _ _

/-! ### Paths without double dots -/

theorem walk_eq {here : Key} {parts : List Text} (hparts : ['.', '.'] ∉ parts)
    (h : d.walk here parts = .ok k) : k = here ++ parts := by
  induction parts generalizing here with
  | nil =>
    obtain rfl := Except.ok.inj h
    simp
  | cons part rest ih =>
    rw [List.mem_cons, not_or] at hparts
    -- without double dots a step only goes down
    simp only [walk] at h
    split at h
    · split at h
      · simp at h
      · rw [ih hparts.2 h, step, if_neg (Ne.symm hparts.1), List.append_assoc, List.singleton_append]
    · simp at h
    · simp at h

/-- **A path without double dots leads to the key of its parts.** -/
theorem locate_eq (hparts : ['.', '.'] ∉ p.parts) (h : d.locate p = .ok k) : k = p.parts := by
  unfold locate at h
  split at h
  · simp at h
  · exact walk_eq hparts h

theorem locateFile_eq (hparts : ['.', '.'] ∉ p.parts) (h : d.locateFile p = .ok k) :
    k = p.parts := by
  unfold locateFile at h
  split at h
  · simp at h
  rename_i k' hlocate
  split at h
  · obtain rfl := Except.ok.inj h
    exact locate_eq hparts hlocate
  · simp at h
  · simp at h

theorem locateTarget_eq (hparts : ['.', '.'] ∉ p.parts) (h : d.locateTarget p = .ok k) :
    k = p.parts := by
  unfold locateTarget at h
  split at h
  · simp at h
  rename_i k' hlocate
  split at h
  · simp at h
  · obtain rfl := Except.ok.inj h
    exact locate_eq hparts hlocate

end Disk

namespace Path

theorem not_mem_collapseParts {before parts : List Text} (h : ['.', '.'] ∉ before) :
    ['.', '.'] ∉ collapseParts before parts := by
  induction parts generalizing before with
  | nil => exact h
  | cons part rest ih =>
    simp only [collapseParts]
    split
    · exact ih fun hmem => h (List.mem_of_mem_dropLast hmem)
    · rename_i hpart
      exact ih (by simp [h, Ne.symm hpart])

theorem not_mem_collapse (p : Path) : ['.', '.'] ∉ p.collapse.parts :=
  not_mem_collapseParts (by simp)

end Path

/-! ### Files that operations write -/

variable {h : Host} {k : Key}

/-- **Saving settings** makes directories, and then writes the file at their path or nothing. -/
theorem Settings.save_cases (p : Path) (j : Json) (h : Host) : ∃ d, h.disk.Extends d ∧
    ((∃ fault, Settings.save p j h = (.error fault, h.withDisk d)) ∨
      ∃ k, d.locateTarget p = .ok k ∧ Settings.save p j h = ((Settings.written h.conditions j).1,
        h.withDisk (d.write k (.text (Settings.written h.conditions j).2)))) := by
  unfold Settings.save
  split
  · exact ⟨_, .refl _, .inl ⟨_, rfl⟩⟩
  have hmade := Disk.extends_makeDirectories h.disk h.conditions.limits.directories p.parent
  split
  · rename_i hdirectories
    rw [hdirectories] at hmade
    exact ⟨_, hmade, .inl ⟨_, rfl⟩⟩
  rename_i d hdirectories
  rw [hdirectories] at hmade
  -- up to here a fault leaves the new directories and no more
  refine ⟨d, hmade, ?_⟩
  split
  · exact .inl ⟨_, rfl⟩
  split
  · exact .inl ⟨_, rfl⟩
  · rename_i k htarget
    exact .inr ⟨k, htarget, rfl⟩

/-- Saving leaves the conditions, the locks, and what files have left to write. -/
theorem Settings.save_frame (p : Path) (j : Json) (h : Host) :
    (Settings.save p j h).2.conditions = h.conditions ∧
      (Settings.save p j h).2.disk.owners = h.disk.owners ∧
      (Settings.save p j h).2.disk.nextId = h.disk.nextId ∧
      (Settings.save p j h).2.disk.unwritten = h.disk.unwritten := by
  obtain ⟨d, hmade, ⟨_, hsave⟩ | ⟨_, -, hsave⟩⟩ := Settings.save_cases p j h
  · rw [hsave]
    exact ⟨rfl, hmade.owners, hmade.nextId, hmade.unwritten⟩
  · rw [hsave]
    exact ⟨rfl, hmade.owners, hmade.nextId, hmade.unwritten⟩

theorem Settings.content?_save {p : Path} {j : Json} (hparts : ['.', '.'] ∉ p.parts)
    (hne : p.parts ≠ []) (k : Key) :
    (Settings.save p j h).2.disk.content? k = h.disk.content? k ∨
      k = p.parts ∧ (Settings.save p j h).2.disk.content? k =
        some (.text (Settings.written h.conditions j).2) := by
  obtain ⟨d, hmade, ⟨_, hsave⟩ | ⟨target, htarget, hsave⟩⟩ := Settings.save_cases p j h
  · rw [hsave]
    exact .inl (hmade.content? k)
  · obtain rfl := Disk.locateTarget_eq hparts htarget
    rw [hsave, Host.withDisk_disk, Disk.content?_write hne]
    split
    · exact .inr ⟨‹_›, rfl⟩
    · exact .inl (hmade.content? k)

theorem Settings.load_disk (p : Path) (h : Host) : (Settings.load p h).2.disk = h.disk := by
  unfold Settings.load Settings.ignoring
  split
  · rfl
  · rfl
  · split <;> rfl

theorem Settings.load_conditions (p : Path) (h : Host) :
    (Settings.load p h).2.conditions = h.conditions := by
  unfold Settings.load Settings.ignoring
  split
  · rfl
  · rfl
  · split <;> rfl

/-- The file under one key was written, and what one open file has left to write may be another text.
All else is as before. -/
structure Disk.Touches (f : OpenFile) (d d' : Disk) : Prop where
  owners : d'.owners = d.owners
  nextId : d'.nextId = d.nextId
  node : ∀ k, d'.node? k = d.node? k ∨ k = f.key ∧ ∃ content, d'.node? k = some (.file content)
  unwritten : ∀ g : OpenFile, g.id ≠ f.id → d'.unwritten? g = d.unwritten? g

namespace Disk.Touches

variable {d d' d'' : Disk} {f : OpenFile}

theorem refl (d : Disk) : Touches f d d := ⟨rfl, rfl, fun _ => .inl rfl, fun _ _ => rfl⟩

theorem trans (h : Touches f d d') (h' : Touches f d' d'') : Touches f d d'' where
  owners := h'.owners.trans h.owners
  nextId := h'.nextId.trans h.nextId
  node k := by
    rcases h'.node k with hsame | hwritten
    · rw [hsame]
      exact h.node k
    · exact .inr hwritten
  unwritten g hg := (h'.unwritten g hg).trans (h.unwritten g hg)

theorem content? (h : Touches f d d') (hk : k ≠ f.key) : d'.content? k = d.content? k := by
  unfold Disk.content?
  rw [(h.node k).resolve_right fun hwritten => hk hwritten.1]

theorem write (d : Disk) (f : OpenFile) (content : Content) : Touches f d (d.write f.key content) := by
  refine ⟨rfl, rfl, fun k => ?_, fun _ _ => rfl⟩
  by_cases hk : k = f.key ∧ k ≠ []
  · refine .inr ⟨hk.1, content, ?_⟩
    have hempty : k.isEmpty = false := by simpa using hk.2
    simp [node?, Disk.write, lookup_setNode, hempty, ← hk.1]
  · left
    unfold node? Disk.write
    simp only [lookup_setNode]
    split
    · rfl
    · rename_i hempty
      rw [if_neg fun heq => hk ⟨heq, by simpa using hempty⟩]

theorem forget (d : Disk) (f : OpenFile) : Touches f d (d.forget f) := by
  refine ⟨rfl, rfl, fun _ => .inl rfl, fun g hg => ?_⟩
  unfold unwritten? Disk.forget
  induction d.unwritten with
  | nil => rfl
  | cons text rest ih =>
    obtain ⟨id, t⟩ := text
    by_cases hid : id = f.id
    · -- the text that goes is not that of the other file
      rw [List.filter_cons_of_neg (by simpa using hid), ih, List.lookup_cons,
        beq_false_of_ne (hid ▸ hg)]
    · rw [List.filter_cons_of_pos (by simpa using hid), List.lookup_cons, List.lookup_cons, ih]

theorem leave (d : Disk) (f : OpenFile) (t : Text) : Touches f d (d.leave f t) := by
  refine ⟨rfl, rfl, fun _ => .inl rfl, fun g hg => ?_⟩
  rw [← (forget d f).unwritten g hg]
  unfold unwritten? Disk.leave
  rw [List.lookup_cons, beq_false_of_ne hg]

theorem flush (d : Disk) (f : OpenFile) : Touches f d (d.flush f) := by
  unfold Disk.flush
  split
  · exact .refl d
  · split
    · exact (forget d f).trans (write _ f _)
    · exact forget d f

end Disk.Touches

/-- **A write that fails** touches the file it is for, and no other. -/
theorem FileLock.touches_diskAfter (d : Disk) (f : OpenFile) (t : Text) (stage : WriteStage) :
    Disk.Touches f d (diskAfter d f t stage) := by
  have hwrite (content : Content) : Disk.Touches f d ((d.forget f).write f.key content) :=
    (Disk.Touches.forget d f).trans (.write _ f content)
  cases stage with
  | start => exact .refl d
  | seek => exact .refl d
  | truncate => exact .flush d f
  | write => exact hwrite _
  | flush => exact (hwrite _).trans (.leave _ f t)
  | sync => exact hwrite _

/-- The disk is the same, or a file that is open was touched. -/
def Disk.Writes (file : Option OpenFile) (d d' : Disk) : Prop :=
  d' = d ∨ ∃ f, file = some f ∧ Disk.Touches f d d'

namespace Disk.Writes

variable {d d' : Disk} {file : Option OpenFile}

theorem content? (h : Writes file d d') (hk : ∀ f, file = some f → k ≠ f.key) :
    d'.content? k = d.content? k := by
  rcases h with rfl | ⟨f, hf, htouches⟩
  · rfl
  · exact htouches.content? (hk f hf)

theorem owners (h : Writes file d d') : d'.owners = d.owners ∧ d'.nextId = d.nextId := by
  rcases h with rfl | ⟨f, -, htouches⟩
  · exact ⟨rfl, rfl⟩
  · exact ⟨htouches.owners, htouches.nextId⟩

end Disk.Writes

/-- A write touches at most the file that is open. -/
theorem FileLock.writes_write (l : FileLock) (t : Text) (h : Host) :
    h.disk.Writes l.file (l.write t h).2.disk := by
  rcases l.write_cases t h with ⟨_, hwrite, -⟩ | ⟨f, hf, -, -, ⟨-, hwrite⟩ | ⟨_, -, -, hwrite⟩⟩
  · rw [hwrite]
    exact .inl rfl
  · rw [hwrite]
    exact .inr ⟨f, hf, (Disk.Touches.forget _ f).trans (.write _ f _)⟩
  · rw [hwrite]
    exact .inr ⟨f, hf, touches_diskAfter _ f t _⟩

theorem SheetFile.writes_setText (s : SheetFile) (index : ℤ) (t : Text) (h : Host) :
    h.disk.Writes s.lock.file (s.setText index t h).2.disk := by
  unfold SheetFile.setText
  split
  · exact .inl rfl
  split
  · exact .inl rfl
  rename_i i _
  have hwrite := s.lock.writes_write (Sheet.join (s.slots.set i t)) h
  simp only
  split
  · rename_i hout
    rw [hout] at hwrite
    exact hwrite
  · rename_i hout
    rw [hout] at hwrite
    exact hwrite

theorem SheetFile.setText_lock {s s' : SheetFile} {index : ℤ} {t : Text}
    (hs : (s.setText index t h).1 = .ok s') : s'.lock = s.lock := by
  unfold SheetFile.setText at hs
  split at hs
  · simp at hs
  split at hs
  · simp at hs
  simp only at hs
  split at hs
  · simp at hs
  · obtain rfl := Except.ok.inj hs
    rfl

/-! ### Closing -/

namespace FileLock

variable {l : FileLock}

/-- The text that is written when the file held is closed. -/
def due (l : FileLock) (h : Host) : Option (OpenFile × Text) :=
  if l.spent || h.conditions.closeFails then none
  else l.file.bind fun f => (h.disk.unwritten? f).map fun t => (f, t)

theorem due_eq_some {f : OpenFile} {t : Text} : l.due h = some (f, t) ↔ l.spent = false ∧
    h.conditions.closeFails = false ∧ l.file = some f ∧ h.disk.unwritten? f = some t := by
  unfold due
  cases l.spent <;> cases h.conditions.closeFails <;>
    simp [Option.bind_eq_some_iff, and_comm, and_assoc]

theorem due_of_settled (hl : l.Settled h.disk) : l.due h = none := by
  rw [Option.eq_none_iff_forall_ne_some]
  rintro ⟨f, t⟩ hdue
  obtain ⟨-, -, hfile, hleft⟩ := due_eq_some.1 hdue
  exact absurd ((hl.written f hfile).symm.trans hleft) (by simp)

/-- **Closing a file** changes no file but the one that something was left to write to, and there it
writes this over the start. -/
theorem content?_tryRelease (l : FileLock) (h : Host) (k : Key) :
    (l.tryRelease h).2.2.disk.content? k = h.disk.content? k ∨
      ∃ f t content, l.due h = some (f, t) ∧ k = f.key ∧ h.disk.content? k = some content ∧
        (l.tryRelease h).2.2.disk.content? k = some (content.overwrite t) := by
  rcases l.tryRelease_cases h with ⟨-, hout⟩ | ⟨f, hfile, ⟨-, hout⟩ |
    ⟨-, -, -, h', hout, -, hdisk⟩ | ⟨hspent, hclose, h', hout, -, hdisk⟩⟩
  · rw [hout]
    exact .inl rfl
  · rw [hout]
    exact .inl rfl
  · rw [hout, hdisk]
    exact .inl rfl
  · rw [hout, hdisk]
    have hunlock : ((h.disk.flush f).unlock f).content? k = (h.disk.flush f).content? k := rfl
    simp only [hunlock]
    unfold Disk.flush
    split
    · exact .inl rfl
    rename_i t hleft
    split
    · rename_i content hcontent
      have hdue : l.due h = some (f, t) :=
        due_eq_some.2 ⟨hspent, hclose.resolve_right (by simp [hleft]), hfile, hleft⟩
      rw [Disk.content?_write (Disk.ne_nil_of_content? hcontent)]
      split
      · rename_i hk
        exact .inr ⟨f, t, content, hdue, hk, hk ▸ hcontent, rfl⟩
      · exact .inl rfl
    · exact .inl rfl

end FileLock

/-- The lock that slots are written through. -/
def SlotSource.lock? : SlotSource → Option FileLock
  | .memory .. => none
  | .file s => some s.lock

/-- The open file that slots are written to. -/
def SlotSource.file? : SlotSource → Option OpenFile
  | .memory .. => none
  | .file s => s.lock.file

theorem SlotSource.file?_eq (source : SlotSource) :
    source.file? = source.lock?.bind FileLock.file := by
  cases source <;> rfl

variable {source source' : SlotSource}

theorem SlotSource.writes_setText (source : SlotSource) (index : ℕ) (t : Text) (h : Host) :
    h.disk.Writes source.file? (source.setText index t h).2.disk := by
  cases source with
  | memory slots refuses =>
    simp only [SlotSource.setText]
    split
    · exact .inl rfl
    · split <;> exact .inl rfl
  | file s =>
    have hsheet := s.writes_setText index t h
    simp only [SlotSource.setText]
    generalize s.setText index t h = out at hsheet ⊢
    rcases out with ⟨_ | _, h'⟩ <;> exact hsheet

theorem SlotSource.setText_lock? {index : ℕ} {t : Text}
    (hs : (source.setText index t h).1 = .ok source') : source'.lock? = source.lock? := by
  cases source with
  | memory slots refuses =>
    simp only [SlotSource.setText] at hs
    split at hs
    · simp at hs
    · split at hs
      · obtain rfl := Except.ok.inj hs
        rfl
      · simp at hs
  | file s =>
    simp only [SlotSource.setText] at hs
    have hlock : ∀ s', (s.setText index t h).1 = .ok s' → s'.lock = s.lock := fun _ =>
      SheetFile.setText_lock
    generalize s.setText index t h = out at hs hlock
    rcases out with ⟨fault | s', h'⟩
    · simp at hs
    · obtain rfl := Except.ok.inj hs
      exact congrArg some (hlock s' rfl)

/-- **Setting a value** writes at most the file that is held open. -/
theorem Store.writes_setOne (source : SlotSource) (name : Text) (v : Scalar) (h : Host) :
    h.disk.Writes source.file? (Store.setOne source name v h).2.disk := by
  unfold Store.setOne
  cases Store.plan source.texts name v with
  | error fault => exact .inl rfl
  | ok planned =>
    cases planned with
    | none => exact .inl rfl
    | some r =>
      have hset := source.writes_setText r.index r.after h
      simp only
      generalize source.setText r.index r.after h = out at hset ⊢
      rcases out with ⟨_ | _, h'⟩ <;> exact hset

/-- Setting a value keeps the lock. -/
theorem Store.setOne_lock? {name : Text} {v : Scalar} {r : Option Rewrite}
    (hs : (Store.setOne source name v h).1 = .ok (r, source')) : source'.lock? = source.lock? := by
  unfold Store.setOne at hs
  cases hplan : Store.plan source.texts name v with
  | error fault => rw [hplan] at hs; simp at hs
  | ok planned =>
    rw [hplan] at hs
    cases planned with
    | none =>
      obtain ⟨-, rfl⟩ := Prod.mk.inj (Except.ok.inj hs)
      rfl
    | some r' =>
      have hlock : ∀ source', (source.setText r'.index r'.after h).1 = .ok source' →
          source'.lock? = source.lock? := fun _ => SlotSource.setText_lock?
      simp only at hs
      generalize source.setText r'.index r'.after h = out at hs hlock
      rcases out with ⟨fault | source₁, h'⟩
      · simp at hs
      · obtain ⟨-, rfl⟩ := Prod.mk.inj (Except.ok.inj hs)
        exact hlock source₁ rfl

/-! ### Settings beside sheets -/

/-- The key of the settings beside a file. -/
def sidecarKey (k : Key) : Key := k.dropLast ++ [Path.stem (k.getLast?.getD []) ++ Path.sidecarExtension]

/-- The key of a text file, `name.txt`. -/
def IsSheetKey (k : Key) : Prop := ∃ name, name ≠ [] ∧ k.getLast? = some (name ++ ".txt".toList)

theorem sidecar?_parts {p q : Path} (hq : p.sidecar? = some q) : q.parts = sidecarKey p.parts := by
  unfold Path.sidecar? at hq
  split at hq
  · simp at hq
  · rename_i name hname
    obtain rfl := Option.some.inj hq
    simp [sidecarKey, hname]

theorem stem_txt {name : Text} (hne : name ≠ []) : Path.stem (name ++ ".txt".toList) = name := by
  have hreverse : (name ++ ".txt".toList).reverse = ['t', 'x', 't'] ++ '.' :: name.reverse := by
    simp
  have hrun : IsRun (fun c => decide (c ≠ '.')) ['t', 'x', 't'] := by simp
  have hpoint : StartsOutside (fun c => decide (c ≠ '.')) ('.' :: name.reverse) := by simp
  unfold Path.stem
  simp only
  rw [hreverse, takeWhile_run hrun hpoint, dropWhile_run hrun hpoint]
  simp [hne]

theorem sidecarKey_eq {k : Key} {name : Text} (hne : name ≠ [])
    (hk : k.getLast? = some (name ++ ".txt".toList)) :
    sidecarKey k = k.dropLast ++ [name ++ ".cfg".toList] := by
  unfold sidecarKey
  rw [hk, Option.getD_some, stem_txt hne]
  rfl

/-- **Sheets keep their settings apart from each other.** -/
theorem sidecarKey_injective {k k' : Key} (hk : IsSheetKey k) (hk' : IsSheetKey k')
    (h : sidecarKey k = sidecarKey k') : k = k' := by
  obtain ⟨name, hne, hlast⟩ := hk
  obtain ⟨name', hne', hlast'⟩ := hk'
  rw [sidecarKey_eq hne hlast, sidecarKey_eq hne' hlast'] at h
  obtain ⟨hdrop, hnames⟩ := List.append_inj' h rfl
  obtain rfl : name = name' := by simpa using hnames
  have happend := fun (l : Key) (a : Text) (hl : l.getLast? = some a) =>
    List.dropLast_append_getLast? a hl
  rw [← happend k _ hlast, ← happend k' _ hlast', hdrop]

/-- **Settings are not kept in the place of a text file.** -/
theorem sidecarKey_ne {k k' : Key} (hk' : IsSheetKey k') : sidecarKey k ≠ k' := by
  obtain ⟨name', -, hlast'⟩ := hk'
  rintro rfl
  rw [sidecarKey, List.getLast?_concat, Option.some.injEq] at hlast'
  have hext : Path.sidecarExtension = ".txt".toList := (List.append_inj' hlast' (by decide)).2
  simp [Path.sidecarExtension] at hext

theorem IsSheetKey.ne_nil {k : Key} (hk : IsSheetKey k) : k ≠ [] := by
  obtain ⟨name, -, hlast⟩ := hk
  rintro rfl
  simp at hlast

/-- The settings of a file lie at the end of a path without double dots. -/
theorem not_mem_sidecarKey {k : Key} (hparts : ['.', '.'] ∉ k) : ['.', '.'] ∉ sidecarKey k := by
  unfold sidecarKey
  rw [List.mem_append, not_or]
  refine ⟨fun hmem => hparts (List.mem_of_mem_dropLast hmem), fun hmem => ?_⟩
  have hlength := congrArg List.length (List.mem_singleton.1 hmem)
  simp [Path.sidecarExtension] at hlength

end EquationSheet
