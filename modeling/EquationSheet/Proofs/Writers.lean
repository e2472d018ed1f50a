import EquationSheet.Proofs.Moves
import EquationSheet.Proofs.Provenance
import EquationSheet.Proofs.ReadBack

/-!
# Who writes a file

Two parts of a window write files: an edit of a value rewrites the sheet that is open, and saving
writes the settings of its table beside the sheet opened last. A sheet is therefore changed by edits
of its values alone, unless its own place is the place of settings, its own or those of another
sheet that was opened. An edit whose write fails changes it too, and what it left to write may be
written when the sheet is given up.

* `Table.Writable`: every slot has an equals sign.
* `Store.setOne_disk`, `Table.set_disk`: **what an edit leaves on the disk**: nothing new, the whole
  text, or what a write that fails leaves.
* `ready_act`: the table of a window stays writable.
* `hasLeft_of_act`: what is left to write is the text of an edit that failed to flush it.
* `sheet_written_by_edits`: **a sheet is changed by the edits of its values**; what else is changed
  is the place of settings.
* `saving_overwrites_sheet`: the place of settings can be the sheet itself.
-/

namespace EquationSheet

open Desktop

/-! ### Values that are set -/

theorem FileLock.tryRelease_writeFault (l : FileLock) (h : Host) :
    (l.tryRelease h).2.1.writeFault = l.writeFault := by
  rcases l.tryRelease_cases h with ⟨-, hout⟩ | ⟨f, -, ⟨-, hout⟩ | ⟨-, -, -, h', hout, -⟩ |
    ⟨-, -, h', hout, -⟩⟩ <;> rw [hout]

/-- Opening a file does not make its writes fail. -/
theorem FileLock.acquire_writeFault {l l' : FileLock} {h : Host} {answer : Bool}
    (hl : (l.acquire h).1 = .ok (answer, l')) : l'.writeFault = l.writeFault := by
  unfold FileLock.acquire at hl
  split at hl
  · obtain ⟨-, rfl⟩ := Prod.mk.inj (Except.ok.inj hl)
    rfl
  split at hl
  · simp at hl
  simp only at hl
  split at hl
  · unfold acquireReadOnly at hl
    split at hl <;> exact (Prod.mk.inj (Except.ok.inj hl)).2 ▸ rfl
  · unfold acquireWritable at hl
    split at hl
    · exact (Prod.mk.inj (Except.ok.inj hl)).2 ▸ rfl
    · simp only [takeLock] at hl
      split at hl <;> exact (Prod.mk.inj (Except.ok.inj hl)).2 ▸ rfl

theorem SheetFile.load_writeFault {p : Path} {s : SheetFile} {h h' : Host}
    (hload : SheetFile.load p h = (.ok s, h')) : s.lock.writeFault = none := by
  have hacquired : ∀ answer l, (({ path := p } : FileLock).acquire h).1 = .ok (answer, l) →
      l.writeFault = none := fun _ _ => FileLock.acquire_writeFault
  unfold SheetFile.load at hload
  generalize ({ path := p } : FileLock).acquire h = out at hload hacquired
  rcases out with ⟨fault | ⟨_ | _, l⟩, h₁⟩
  · simp at hload
  · simp at hload
  · simp only at hload
    split at hload
    · simp at hload
    · obtain ⟨hs, -⟩ := Prod.mk.inj hload
      rw [← Except.ok.inj hs]
      exact hacquired true l rfl

namespace FileLock

/-- The file held has the whole text, and nothing is left to write. -/
def Replaces (l : FileLock) (h : Host) (d : Disk) : Prop :=
  ∃ f t, l.file = some f ∧ d = (h.disk.forget f).write f.key (.text t)

/-- A write of a text failed at a stage; the stages before it have happened. -/
structure FailsAt (l : FileLock) (h : Host) (f : OpenFile) (t : Text) (stage : WriteStage)
    (d : Disk) : Prop where
  file : l.file = some f
  failing : l.failingStage h = some stage
  disk : d = diskAfter h.disk f t stage

/-- Only a text that cannot be flushed is left to write. -/
theorem unwritten?_diskAfter {d : Disk} {f : OpenFile} {t u : Text} {stage : WriteStage}
    (hleft : (diskAfter d f t stage).unwritten? f = some u) :
    stage = .flush ∧ u = t ∨ d.unwritten? f = some u := by
  have hforgotten : ∀ {content : Content} {u : Text},
      ((d.forget f).write f.key content).unwritten? f ≠ some u := by
    intro content u hsome
    have hnone : ((d.forget f).write f.key content).unwritten? f = none := Disk.unwritten?_forget d f
    simp [hnone] at hsome
  cases stage with
  | start => exact .inr hleft
  | seek => exact .inr hleft
  | truncate =>
    simp only [diskAfter, Disk.flush] at hleft
    split at hleft
    · exact .inr hleft
    · split at hleft
      · exact absurd hleft hforgotten
      · exact absurd ((Disk.unwritten?_forget d f).symm.trans hleft) (by simp)
  | write => exact absurd hleft hforgotten
  | flush =>
    left
    simp only [diskAfter, Disk.leave, Disk.unwritten?, List.lookup_cons, beq_self_eq_true] at hleft
    exact ⟨rfl, (Option.some.inj hleft).symm⟩
  | sync => exact absurd hleft hforgotten

end FileLock

/-- A slot that cannot be rewritten leaves the disk as it was, or the write of the whole text fails.
-/
theorem SheetFile.setText_disk (s : SheetFile) (index : ℤ) (t : Text) (h : Host) :
    (s.setText index t h).2.disk = h.disk ∨
      ((∃ s', (s.setText index t h).1 = .ok s') ∧ s.lock.Replaces h (s.setText index t h).2.disk) ∨
      ((s.setText index t h).1 = .error (.file .diskFull) ∧
        ∃ f all stage, s.lock.FailsAt h f all stage (s.setText index t h).2.disk) := by
  unfold setText
  split
  · exact .inl rfl
  split
  · exact .inl rfl
  rename_i i _
  simp only
  rcases s.lock.write_cases (Sheet.join (s.slots.set i t)) h with ⟨_, hwrite, -⟩ |
    ⟨f, hf, -, -, ⟨-, hwrite⟩ | ⟨stage, hstage, -, hwrite⟩⟩
  · rw [hwrite]
    exact .inl rfl
  · rw [hwrite]
    exact .inr (.inl ⟨⟨_, rfl⟩, f, _, hf, rfl⟩)
  · rw [hwrite]
    exact .inr (.inr ⟨rfl, f, _, stage, hf, hstage, rfl⟩)

theorem SlotSource.setText_disk (source : SlotSource) (index : ℕ) (t : Text) (h : Host) :
    (source.setText index t h).2.disk = h.disk ∨ ∃ l, source.lock? = some l ∧
      (((∃ source', (source.setText index t h).1 = .ok source') ∧
        l.Replaces h (source.setText index t h).2.disk) ∨
      ((source.setText index t h).1 = .error (.file .diskFull) ∧
        ∃ f all stage, l.FailsAt h f all stage (source.setText index t h).2.disk)) := by
  cases source with
  | memory slots refuses =>
    simp only [setText]
    split
    · exact .inl rfl
    · split <;> exact .inl rfl
  | file s =>
    have hset := s.setText_disk index t h
    simp only [setText]
    generalize s.setText index t h = out at hset ⊢
    rcases out with ⟨fault | s', h'⟩
    · rcases hset with hsame | ⟨⟨_, hok⟩, -⟩ | ⟨hfault, hfails⟩
      · exact .inl hsame
      · simp at hok
      · exact .inr ⟨s.lock, rfl, .inr ⟨by rw [Except.error.inj hfault], hfails⟩⟩
    · rcases hset with hsame | ⟨-, hreplaces⟩ | ⟨hfault, -⟩
      · exact .inl hsame
      · exact .inr ⟨s.lock, rfl, .inl ⟨⟨_, rfl⟩, hreplaces⟩⟩
      · simp at hfault

/-- **What setting a value leaves on the disk**: all is as it was, or the value is set, or the write
fails. -/
theorem Store.setOne_disk (source : SlotSource) (name : Text) (v : Scalar) (h : Host) :
    (Store.setOne source name v h).2.disk = h.disk ∨ ∃ l, source.lock? = some l ∧
      (((∃ r source', (Store.setOne source name v h).1 = .ok (some r, source')) ∧
        l.Replaces h (Store.setOne source name v h).2.disk) ∨
      ((Store.setOne source name v h).1 = .error (.file .diskFull) ∧
        ∃ f t stage, l.FailsAt h f t stage (Store.setOne source name v h).2.disk)) := by
  unfold Store.setOne
  cases Store.plan source.texts name v with
  | error fault => exact .inl rfl
  | ok planned =>
    cases planned with
    | none => exact .inl rfl
    | some r =>
      have hset := source.setText_disk r.index r.after h
      simp only
      generalize source.setText r.index r.after h = out at hset ⊢
      rcases out with ⟨fault | source', h'⟩
      · rcases hset with hsame | ⟨l, hl, ⟨⟨_, hok⟩, -⟩ | ⟨hfault, hfails⟩⟩
        · exact .inl hsame
        · simp at hok
        · exact .inr ⟨l, hl, .inr ⟨by rw [Except.error.inj hfault], hfails⟩⟩
      · rcases hset with hsame | ⟨l, hl, ⟨-, hreplaces⟩ | ⟨hfault, -⟩⟩
        · exact .inl hsame
        · exact .inr ⟨l, hl, .inl ⟨⟨r, _, rfl⟩, hreplaces⟩⟩
        · simp at hfault

namespace Table

variable {t : Table} {h : Host} {name : Text} {x : Binary64}

/-- Every slot has an equals sign, and the lock has no stage of its own at which writes fail. -/
structure Writable (t : Table) : Prop where
  equals : ∀ slot ∈ t.source.texts, '=' ∈ slot
  faultless : ∀ l, t.source.lock? = some l → l.writeFault = none

theorem writable_create {source : SlotSource} {cfg : Members} {readonly : Bool}
    (hnew : create source cfg readonly = .ok t)
    (hfault : ∀ l, source.lock? = some l → l.writeFault = none) : t.Writable := by
  obtain ⟨hsource, -, hrows⟩ := create_eq hnew
  rw [← hsource] at hrows hfault
  exact ⟨(Store.entries_eq_ok_iff.1 hrows).1, hfault⟩

/-- Rows that have equals signs can be read again. -/
theorem reload_of_equals (hequals : ∀ slot ∈ t.source.texts, '=' ∈ slot) : t.reload.1 = .ok () := by
  have hrows := Store.entries_eq_ok_iff.2 ⟨hequals, rfl⟩
  unfold reload
  rw [hrows]

/-- After a number was set every slot still has its equals sign. -/
theorem equals_setNumber (ht : t.Writable) (name : Text) (x : Binary64) (h : Host) :
    ∀ slot ∈ (t.setNumber name x h).1.table.source.texts, '=' ∈ slot := by
  rcases (setNumber_cases t name x h).2 with ⟨r, source, hset, htable, -⟩ | ⟨-, htable⟩
  · obtain ⟨hplan, htexts⟩ := Store.plan_of_setOne hset
    rw [htable, reload_source, htexts]
    exact Store.equals_of_plan ht.equals hplan
  · rw [htable]
    exact ht.equals

/-- **A number that is set** leaves the disk as it was, or is written by an edit that is accepted, or
refused because the write fails. -/
theorem setNumber_disk (ht : t.Writable) (name : Text) (x : Binary64) (h : Host) :
    (t.setNumber name x h).2.disk = h.disk ∨ ∃ l, t.source.lock? = some l ∧
      (((t.setNumber name x h).1.outcome = .ok true ∧ l.Replaces h (t.setNumber name x h).2.disk) ∨
      ((t.setNumber name x h).1.outcome = .ok false ∧
        ∃ f u stage, l.FailsAt h f u stage (t.setNumber name x h).2.disk)) := by
  have hequals := equals_setNumber ht name x h
  obtain ⟨hdisk, hcases⟩ := setNumber_cases t name x h
  rw [hdisk]
  rcases Store.setOne_disk t.source name (.float x) h with hsame |
    ⟨l, hl, ⟨⟨r, source, hset⟩, hreplaces⟩ | ⟨hfault, hfails⟩⟩
  · exact .inl hsame
  · refine .inr ⟨l, hl, .inl ⟨?_, hreplaces⟩⟩
    rcases hcases with ⟨_, source', -, htable, houtcome⟩ | ⟨hrefused, -⟩
    · rw [htable, reload_source] at hequals
      rw [houtcome, reload_of_equals hequals]
      rfl
    · exact absurd hset (hrefused r source)
  · refine .inr ⟨l, hl, .inr ⟨?_, hfails⟩⟩
    unfold setNumber
    generalize Store.setOne t.source name (.float x) h = out at hfault ⊢
    obtain ⟨result, h'⟩ := out
    obtain rfl : result = _ := hfault
    rfl

/-- **A file is written by an edit of a value** that is accepted, or refused because the write fails,
and by no other edit. -/
theorem set_disk (ht : t.Writable) (row column : ℤ) (v : Scalar) (role : CellRole) (h : Host) :
    (t.set row column v role h).2.disk = h.disk ∨ role = .edit ∧ column = 1 ∧
      ∃ l, t.source.lock? = some l ∧
        (((t.set row column v role h).1.outcome = .ok true ∧
          l.Replaces h (t.set row column v role h).2.disk) ∨
        ((t.set row column v role h).1.outcome = .ok false ∧
          ∃ f u stage, l.FailsAt h f u stage (t.set row column v role h).2.disk)) := by
  rcases set_cases t row column v role h with ⟨hrole, hcolumn, name, x, hset⟩ | ⟨hsame, -⟩
  · rw [hset]
    exact (setNumber_disk ht name x h).imp_right fun hwritten => ⟨hrole, hcolumn, hwritten⟩
  · exact .inl hsame

/-- An edit keeps a table writable. -/
theorem writable_set (ht : t.Writable) (row column : ℤ) (v : Scalar) (role : CellRole) (h : Host) :
    (t.set row column v role h).1.table.Writable := by
  have hlock := (set_frame t row column v role h).2.1
  refine ⟨?_, fun l hl => ht.faultless l (hlock ▸ hl)⟩
  rcases set_cases t row column v role h with ⟨-, -, name, x, hset⟩ |
    ⟨-, htable | ⟨cfg, -, htable⟩⟩
  · rw [hset]
    exact equals_setNumber ht name x h
  · rw [htable]
    exact ht.equals
  · rw [htable]
    exact ht.equals

end Table

/-! ### The table of a window -/

namespace Desktop

variable {d d' : Desktop}

/-- The table of a window is writable, and so is the sheet that would get one. -/
structure Ready (d : Desktop) : Prop where
  unshown : ∀ sheet, d.window.held = .unshown sheet → sheet.lock.writeFault = none
  table : ∀ t, d.window.table = some t → t.Writable

theorem ready_first (h : Host) : Ready { host := h } :=
  ⟨fun _ hs => absurd hs (by simp), fun _ ht => absurd ht (by simp)⟩

/-- Closing keeps the slots of the table, and no stage at which they fail comes in. -/
theorem ready_closeSheet (hd : d.Ready) : d.closeSheet.2.Ready := by
  have hletGo : ∀ {d' : Desktop} {outcome : Except Fault Unit}, d'.Ready →
      (d'.letGo outcome).2.Ready := by
    intro d' outcome hd'
    cases outcome with
    | error fault => exact hd'
    | ok _ => exact ⟨fun sheet hs => absurd hs (by simp [letGo]), hd'.table⟩
  rcases closeSheet_cases d with ⟨sheet, hheld, hclose⟩ | ⟨t, sheet, hheld, ht, hsource, hclose⟩ |
    ⟨-, -, hclose⟩
  · rw [hclose]
    refine hletGo ⟨fun sheet' hs => ?_, hd.table⟩
    obtain rfl : (sheet.tryClose d.host).2.1 = sheet' := by simpa [closeUnshown] using hs
    exact (sheet.lock.tryRelease_writeFault d.host).trans (hd.unshown sheet hheld)
  · have hwritable := hd.table t ht
    rw [hclose]
    refine hletGo ⟨fun sheet' hs => absurd (hheld.symm.trans hs) (by simp), fun t' ht' => ?_⟩
    obtain rfl := Option.some.inj ht'
    refine ⟨fun slot hslot => hwritable.equals slot ?_, fun l hl => ?_⟩
    · rw [hsource]
      exact hslot
    · obtain rfl := Option.some.inj hl
      exact (sheet.lock.tryRelease_writeFault d.host).trans
        (hwritable.faultless sheet.lock (by rw [hsource]; rfl))
  · rw [hclose]
    exact hletGo hd

theorem ready_move (hmove : Move d d') (hd : d.Ready) : d'.Ready := by
  cases hmove with
  | reports current held table disk conditions =>
    exact ⟨fun sheet hs => hd.unshown sheet (held ▸ hs), fun t ht => hd.table t (table ▸ ht)⟩
  | saves current table beside => exact ⟨hd.unshown, hd.table⟩
  | closes => exact ready_closeSheet hd
  | fails held loads => exact ⟨hd.unshown, hd.table⟩
  | opens held plain loads =>
    rename_i p sheet h
    refine ⟨fun sheet' hs => ?_, hd.table⟩
    obtain rfl : sheet = sheet' := by simpa [hold] using hs
    exact SheetFile.load_writeFault loads
  | shows held creates =>
    rename_i sheet cfg t
    refine ⟨fun sheet' hs => absurd hs (by simp), fun t' ht' => ?_⟩
    obtain rfl : t = t' := Option.some.inj ht'
    refine Table.writable_create creates fun l hl => ?_
    obtain rfl : sheet.lock = l := Option.some.inj hl
    exact hd.unshown sheet held

theorem ready_edit (hd : d.Ready) (row column : ℤ) (v : Scalar) (role : CellRole) :
    (d.edit row column v role).2.Ready := by
  unfold edit
  cases ht : d.window.table with
  | none => exact hd
  | some t =>
    refine ⟨hd.unshown, fun t' ht' => ?_⟩
    obtain rfl := Option.some.inj ht'
    exact Table.writable_set (hd.table t ht) row column v role d.host

/-- **Every action keeps the table writable.** -/
theorem ready_act (hd : d.Ready) (now : Text) (action : UserAction) :
    (d.act now action).2.Ready :=
  preserves_act (fun _ _ => ready_move)
    (fun _ row column v role hd => ready_edit hd row column v role) hd now action

/-- The action is an edit of a value, which is accepted, in the sheet opened last, which is open
under the key. -/
structure EditsValue (d : Desktop) (now : Text) (action : UserAction) (k : Key) : Prop where
  edit : ∃ row v, action = .edit row 1 v .edit
  accepted : (d.act now action).1 = .ok (some true)
  isOpen : ∃ f, d.file? = some f ∧ f.key = k
  current : ∃ p, d.window.current = some p ∧ p.parts = k

/-- The action is an edit of a value in the sheet opened last, which is open. The edit is refused,
for the host fails to write the text of the sheet: the stages before the one at which it fails have
happened. -/
structure FailsToWrite (d : Desktop) (now : Text) (action : UserAction) (f : OpenFile) (t : Text)
    (stage : WriteStage) : Prop where
  edit : ∃ row v, action = .edit row 1 v .edit
  refused : (d.act now action).1 = .ok (some false)
  isOpen : d.file? = some f
  current : ∃ p, d.window.current = some p ∧ p.parts = f.key
  failing : d.host.conditions.writeFault = some stage
  disk : (d.act now action).2.host.disk = FileLock.diskAfter d.host.disk f t stage

/-- **What an edit leaves on the disk**: all is as it was, or the edit is an accepted one of a value,
or the write of one fails. -/
theorem edit_disk (hplaced : d.Placed) (hready : d.Ready) (now : Text) (row column : ℤ) (v : Scalar)
    (role : CellRole) :
    (d.edit row column v role).2.host.disk = d.host.disk ∨ ∃ f, d.file? = some f ∧
      ((d.EditsValue now (.edit row column v role) f.key ∧
        (d.edit row column v role).2.host.disk.unwritten? f = none) ∨
      ∃ u stage, d.FailsToWrite now (.edit row column v role) f u stage) := by
  cases ht : d.window.table with
  | none =>
    unfold edit
    rw [ht]
    exact .inl rfl
  | some t =>
    have hedit : d.edit row column v role = ((t.set row column v role d.host).1.outcome,
        { window := { d.window with table := some (t.set row column v role d.host).1.table },
          host := (t.set row column v role d.host).2 }) := by
      unfold edit
      rw [ht]
    have hact : (d.act now (.edit row column v role)).1 =
        (t.set row column v role d.host).1.outcome.map some := by simp only [act, hedit]
    rw [hedit]
    rcases Table.set_disk (hready.table t ht) row column v role d.host with hsame |
      ⟨rfl, rfl, l, hl, hwritten⟩
    · exact .inl hsame
    right
    have hopen : ∀ {f}, l.file = some f →
        d.file? = some f ∧ ∃ p, d.window.current = some p ∧ p.parts = f.key := by
      intro f hf
      have hfile : d.file? = some f := by
        rw [file?, ht, Option.bind_some, SlotSource.file?_eq, hl, Option.bind_some, hf]
      obtain ⟨p, hp, hkey⟩ := current_of_file? hplaced hfile
      exact ⟨hfile, p, hp, hkey.symm⟩
    rcases hwritten with ⟨haccepted, f, u, hf, hdisk⟩ | ⟨hrefused, f, u, stage, hfails⟩
    · obtain ⟨hfile, hcurrent⟩ := hopen hf
      rw [haccepted] at hact
      refine ⟨f, hfile, .inl ⟨⟨⟨row, v, rfl⟩, hact, ⟨f, hfile, rfl⟩, hcurrent⟩, ?_⟩⟩
      rw [hdisk]
      exact Disk.unwritten?_forget d.host.disk f
    · -- the handle has no stage of its own, so it is the host whose writes fail
      obtain ⟨hfile, hcurrent⟩ := hopen hfails.file
      rw [hrefused] at hact
      have hstage := hfails.failing
      rw [FileLock.failingStage, (hready.table t ht).faultless l hl, Option.none_or] at hstage
      refine ⟨f, hfile, .inr ⟨u, stage, ⟨row, v, rfl⟩, hact, hfile, hcurrent, hstage, ?_⟩⟩
      simp only [act, hedit, hfails.disk]

/-- **An edit that changes a file** is an accepted one of a value in the sheet that is open, or one
whose write fails. -/
theorem edits_of_changed {row column : ℤ} {v : Scalar} {role : CellRole} {k : Key} (now : Text)
    (hplaced : d.Placed) (hready : d.Ready)
    (hchanged : (d.edit row column v role).2.host.disk.content? k ≠ d.host.disk.content? k) :
    d.EditsValue now (.edit row column v role) k ∨
      ∃ f t stage, f.key = k ∧ d.FailsToWrite now (.edit row column v role) f t stage := by
  rcases edit_disk hplaced hready now row column v role with hsame | ⟨f, hf, hwritten⟩
  · rw [hsame] at hchanged
    exact absurd rfl hchanged
  obtain rfl : f.key = k := by
    by_contra hne
    refine hchanged ((writes_edit d row column v role).content? fun f' hf' => ?_)
    obtain rfl := Option.some.inj (hf.symm.trans hf')
    exact Ne.symm hne
  rcases hwritten with ⟨hedits, -⟩ | ⟨t, stage, hfails⟩
  · exact .inl hedits
  · exact .inr ⟨f, t, stage, rfl, hfails⟩

/-! ### What is left to write -/

/-- The file held has a text left to write. -/
def HasLeft (d : Desktop) (f : OpenFile) (t : Text) : Prop :=
  ∃ l, d.heldLock = some l ∧ l.file = some f ∧ d.host.disk.unwritten? f = some t

variable {f : OpenFile} {u : Text}

theorem hasLeft_of_due (hdue : d.due = some (f, u)) : d.HasLeft f u := by
  obtain ⟨l, hl, hleft⟩ := Option.bind_eq_some_iff.1 hdue
  obtain ⟨-, -, hf, hu⟩ := FileLock.due_eq_some.1 hleft
  exact ⟨l, hl, hf, hu⟩

/-- What a file held has left to write was left before, whatever move was made. -/
theorem hasLeft_of_move (hmove : Move d d') (hleft : d'.HasLeft f u) : d.HasLeft f u := by
  obtain ⟨l', hl', hf, hu⟩ := hleft
  cases hmove with
  | reports current held table disk conditions =>
    rw [heldLock_congr held table] at hl'
    exact ⟨l', hl', hf, by rwa [← disk]⟩
  | saves current table beside =>
    rename_i p sidecar t
    refine ⟨l', hl', hf, ?_⟩
    have hsame := (Settings.save_frame sidecar (.obj t.settings) d.host).2.2.2
    unfold Disk.unwritten? at hu ⊢
    rwa [hsame] at hu
  | closes =>
    -- a file whose closing fails has lost what it had left
    exfalso
    obtain ⟨l, -, -, rfl, hhost⟩ := exists_of_heldLock_closeSheet hl'
    rw [hhost] at hu
    rcases l.tryRelease_cases d.host with ⟨hnone, hout⟩ | ⟨f', hf', ⟨-, hout⟩ |
      ⟨-, -, -, h', hout, -, hdisk⟩ | ⟨-, -, h', hout, -⟩⟩ <;> rw [hout] at hf hu
    · simp [hnone] at hf
    · simp at hf
    · obtain rfl : f' = f := Option.some.inj (hf'.symm.trans hf)
      rw [hdisk] at hu
      exact absurd ((Disk.unwritten?_forget d.host.disk f').symm.trans hu) (by simp)
    · simp at hf
  | fails held loads =>
    have hnone : heldLock ⟨d.window, _⟩ = none := heldLock_of_nothing held
    exact absurd (hnone.symm.trans hl') (by simp)
  | opens held plain loads =>
    obtain ⟨f', hopened⟩ := SheetFile.opened_of_load loads
    obtain rfl := Option.some.inj hl'
    obtain rfl : f' = f := Option.some.inj (hopened.file.symm.trans hf)
    exact absurd (hopened.written.symm.trans hu) (by simp)
  | shows held creates =>
    rw [heldLock_shows held creates] at hl'
    exact ⟨l', hl', hf, hu⟩

/-- **What an edit leaves to write** is the text that it fails to flush. -/
theorem hasLeft_of_edit (hplaced : d.Placed) (hready : d.Ready) (now : Text) {row column : ℤ}
    {v : Scalar} {role : CellRole} (hleft : (d.edit row column v role).2.HasLeft f u) :
    d.HasLeft f u ∨ d.FailsToWrite now (.edit row column v role) f u .flush := by
  obtain ⟨l, hl, hf, hu⟩ := hleft
  rw [heldLock_edit] at hl
  rcases edit_disk hplaced hready now row column v role with hsame | ⟨f', hfile, hwritten⟩
  · exact .inl ⟨l, hl, hf, by rwa [hsame] at hu⟩
  · obtain ⟨-, l', hl', hf'⟩ := exists_of_file? hplaced hfile
    obtain rfl : l = l' := Option.some.inj (hl.symm.trans hl')
    obtain rfl : f = f' := Option.some.inj (hf.symm.trans hf')
    rcases hwritten with ⟨-, hnone⟩ | ⟨t, stage, hfails⟩
    · exact absurd (hnone.symm.trans hu) (by simp)
    · have hdisk : (d.edit row column v role).2.host.disk =
          FileLock.diskAfter d.host.disk f t stage := hfails.disk
      rw [hdisk] at hu
      rcases FileLock.unwritten?_diskAfter hu with ⟨rfl, rfl⟩ | hbefore
      · exact .inr hfails
      · exact .inl ⟨l, hl, hf, hbefore⟩

/-- **What an action leaves to write** was left before, or is the text that it fails to flush. -/
theorem hasLeft_of_act (hplaced : d.Placed) (hready : d.Ready) {now : Text} {action : UserAction}
    (hleft : (d.act now action).2.HasLeft f u) :
    d.HasLeft f u ∨ d.FailsToWrite now action f u .flush := by
  by_cases h : ∃ row column v role, action = .edit row column v role
  · obtain ⟨row, column, v, role, rfl⟩ := h
    exact hasLeft_of_edit hplaced hready now hleft
  · have hmoves := moves_act d now fun row column v role heq => h ⟨row, column, v, role, heq⟩
    refine .inl ?_
    have hback : (d.act now action).2.HasLeft f u → d.HasLeft f u :=
      hmoves.preserves (P := fun d' => d'.HasLeft f u → d.HasLeft f u)
        (fun _ _ hmove hd hleft => hd (hasLeft_of_move hmove hleft)) id
    exact hback hleft

/-- A change from outside leaves alone what the file held has left to write. -/
def Spares (d : Desktop) (h : Host) : Prop :=
  ∀ l f, d.heldLock = some l → l.file = some f → h.disk.unwritten? f = d.host.disk.unwritten? f

end Desktop

/-! ### Runs -/

namespace Provenance

section Trace

variable (h₀ : Host) (es : List Event)

/-- The sheet under the key was opened by one of the first `n` events. -/
def WasOpened (n : ℕ) (k : Key) : Prop :=
  ∃ m ≤ n, ∃ p, (deskAfter h₀ es m).window.current = some p ∧ p.parts = k

/-- The key is the place of the settings of a sheet that was opened. -/
def KeepsSettings (n : ℕ) (k : Key) : Prop := ∃ k', WasOpened h₀ es n k' ∧ k = sidecarKey k'

end Trace

variable {h₀ : Host} {es : List Event} {n : ℕ} {k : Key}

theorem deskAfter_ready (n : ℕ) : (deskAfter h₀ es n).Ready :=
  deskAfter_preserves (ready_first h₀) (fun _ now action hd => ready_act hd now action)
    (fun _ _ hd => ⟨hd.unshown, hd.table⟩) n

theorem KeepsSettings.cfg (h : KeepsSettings h₀ es n k) :
    ∃ name, k.getLast? = some (name ++ ".cfg".toList) := by
  obtain ⟨k', -, rfl⟩ := h
  exact ⟨_, List.getLast?_concat⟩

/-- **The ways in which the user changes a sheet**: an edit of a value that is accepted, one whose
write fails, and giving up a sheet to which such an edit left something to write. -/
inductive WritesSheet (d : Desktop) (now : Text) (action : UserAction) (k : Key)
    (before after : Option Content) : Prop
  | edits (accepted : d.EditsValue now action k)
  | fails {f : OpenFile} {t : Text} {stage : WriteStage} (key : f.key = k)
      (refused : d.FailsToWrite now action f t stage)
  | settles (closes : Closes (.user now action)) (left : d.Settles k before after)

/-- **A file that the user changes** is a sheet that is written, or gets the settings shown. -/
theorem writer_of_changed {now : Text} {action : UserAction} (he : es[n]? = some (.user now action))
    (hchanged : (deskAfter h₀ es (n + 1)).host.disk.content? k ≠
      (deskAfter h₀ es n).host.disk.content? k) :
    WritesSheet (deskAfter h₀ es n) now action k ((deskAfter h₀ es n).host.disk.content? k)
        ((deskAfter h₀ es (n + 1)).host.disk.content? k) ∨
      KeepsSettings h₀ es (n + 1) k ∧ ∃ cfg content, (deskAfter h₀ es n).settings? = some cfg ∧
        content = some (.text (Settings.written (deskAfter h₀ es n).host.conditions (.obj cfg)).2) ∧
        ((deskAfter h₀ es (n + 1)).host.disk.content? k = content ∨
          (deskAfter h₀ es n).Settles k content
            ((deskAfter h₀ es (n + 1)).host.disk.content? k)) := by
  have hplaced : (deskAfter h₀ es n).Placed := deskAfter_placed n
  have hready : (deskAfter h₀ es n).Ready := deskAfter_ready n
  have hsucc := deskAfter_succ h₀ he
  rw [hsucc] at hchanged ⊢
  by_cases hedit : ∃ row column v role, action = .edit row column v role
  · obtain ⟨row, column, v, role, rfl⟩ := hedit
    rcases edits_of_changed now hplaced hready hchanged with hedits | ⟨f, t, stage, hk, hfails⟩
    · exact .inl (.edits hedits)
    · exact .inl (.fails hk hfails)
  · -- the settings are saved beside the sheet opened last, which may be one opened just now
    have hplace : ∀ {content}, SavedBy (deskAfter h₀ es n) (.user now action) k content →
        KeepsSettings h₀ es (n + 1) k ∧ ∃ cfg, (deskAfter h₀ es n).settings? = some cfg ∧ content =
          some (.text (Settings.written (deskAfter h₀ es n).host.conditions (.obj cfg)).2) := by
      rintro content ⟨p, cfg, hcfg, hk, htext, hcurrent | ⟨sheet, h, ho, hs⟩⟩
      · exact ⟨⟨p.parts, ⟨n, Nat.le_succ n, p, hcurrent, rfl⟩, hk⟩, cfg, hcfg, htext⟩
      · refine ⟨⟨p.parts, ⟨n + 1, le_rfl, p, ?_, rfl⟩, hk⟩, cfg, hcfg, htext⟩
        rw [hsucc]
        exact (step_of_unshown ho hs).1
    rcases content?_step hplaced.plain fun row column v role h _ _ =>
        absurd ⟨row, column, v, role, h⟩ hedit with
      hsame | hsaved | ⟨hcloses, before, rfl | hsaved, hsettles⟩
    · exact absurd hsame hchanged
    · obtain ⟨hkeeps, cfg, hcfg, htext⟩ := hplace hsaved
      exact .inr ⟨hkeeps, cfg, _, hcfg, htext, .inl rfl⟩
    · exact .inl (.settles hcloses hsettles)
    · obtain ⟨hkeeps, cfg, hcfg, htext⟩ := hplace hsaved
      exact .inr ⟨hkeeps, cfg, before, hcfg, htext, .inr hsettles⟩

/-- **What a sheet has left to write** is the text of an edit before that failed to flush it. -/
theorem exists_failed_of_hasLeft {f : OpenFile} {t : Text}
    (hspares : ∀ m h, m < n → es[m]? = some (.outside h) → (deskAfter h₀ es m).Spares h)
    (hleft : (deskAfter h₀ es n).HasLeft f t) : ∃ m < n, ∃ now action,
      es[m]? = some (.user now action) ∧ (deskAfter h₀ es m).FailsToWrite now action f t .flush := by
  induction n with
  | zero =>
    obtain ⟨l, hl, -⟩ := hleft
    rw [show deskAfter h₀ es 0 = { host := h₀ } from stateAfter_zero] at hl
    simp [heldLock] at hl
  | succ n ih =>
    have hearlier : (deskAfter h₀ es n).HasLeft f t → ∃ m < n + 1, ∃ now action,
        es[m]? = some (.user now action) ∧
          (deskAfter h₀ es m).FailsToWrite now action f t .flush := by
      intro hbefore
      obtain ⟨m, hm, hfailed⟩ := ih (fun m h hm => hspares m h (Nat.lt_succ_of_lt hm)) hbefore
      exact ⟨m, Nat.lt_succ_of_lt hm, hfailed⟩
    cases he : es[n]? with
    | none =>
      rw [deskAfter_succ_none h₀ he] at hleft
      exact hearlier hleft
    | some e =>
      rw [deskAfter_succ h₀ he] at hleft
      cases e with
      | outside h =>
        obtain ⟨l, hl, hf, hu⟩ := hleft
        have hsame := hspares n h (Nat.lt_succ_self n) he l f hl hf
        exact hearlier ⟨l, hl, hf, hsame.symm.trans hu⟩
      | user now action =>
        rcases hasLeft_of_act (deskAfter_placed n) (deskAfter_ready n) hleft with hbefore | hfailed
        · exact hearlier hbefore
        · exact ⟨n, Nat.lt_succ_self n, now, action, he, hfailed⟩

/-- **A sheet is changed by the edits of its values.** In every run, with any changes of the disk in
between, for what the user does in one event:

* a file that was opened as a sheet, and is not in the place of the settings of an opened sheet,
  changes in three ways only. A value of that sheet, which is the one that is open, is edited, and the
  edit is accepted. Or the edit is refused because writing the file fails, after some of its stages.
  Or the sheet is given up by a load or a close, and gets what it had left to write;
* any file that changes in another way is in the place of the settings of an opened sheet, and gets
  what is written of the settings of the table;
* the places of settings are files with the extension of settings;
* what a sheet has left to write is the text of an edit of a value that failed to flush it, unless it
  comes from outside;
* so while no write fails, a sheet is changed by the accepted edits of its values alone: loading,
  editing comments, saving and closing leave it as it is. -/
theorem sheet_written_by_edits {now : Text} {action : UserAction}
    (he : es[n]? = some (.user now action)) :
    (∀ k, WasOpened h₀ es n k → ¬KeepsSettings h₀ es (n + 1) k →
      (deskAfter h₀ es (n + 1)).host.disk.content? k ≠ (deskAfter h₀ es n).host.disk.content? k →
      WritesSheet (deskAfter h₀ es n) now action k ((deskAfter h₀ es n).host.disk.content? k)
        ((deskAfter h₀ es (n + 1)).host.disk.content? k)) ∧
    (∀ k, (deskAfter h₀ es (n + 1)).host.disk.content? k ≠
        (deskAfter h₀ es n).host.disk.content? k →
      ¬WritesSheet (deskAfter h₀ es n) now action k ((deskAfter h₀ es n).host.disk.content? k)
        ((deskAfter h₀ es (n + 1)).host.disk.content? k) →
      KeepsSettings h₀ es (n + 1) k ∧ ∃ cfg content, (deskAfter h₀ es n).settings? = some cfg ∧
        content = some (.text (Settings.written (deskAfter h₀ es n).host.conditions (.obj cfg)).2) ∧
        ((deskAfter h₀ es (n + 1)).host.disk.content? k = content ∨
          (deskAfter h₀ es n).Settles k content
            ((deskAfter h₀ es (n + 1)).host.disk.content? k))) ∧
    (∀ k, KeepsSettings h₀ es (n + 1) k → ∃ name, k.getLast? = some (name ++ ".cfg".toList)) ∧
    ((∀ m h, m < n → es[m]? = some (.outside h) → (deskAfter h₀ es m).Spares h) →
      (∀ f t, (deskAfter h₀ es n).due = some (f, t) → ∃ m < n, ∃ now' action',
        es[m]? = some (.user now' action') ∧
          (deskAfter h₀ es m).FailsToWrite now' action' f t .flush) ∧
      ((∀ m ≤ n, (deskAfter h₀ es m).host.conditions.writeFault = none) →
        ∀ k, WasOpened h₀ es n k → ¬KeepsSettings h₀ es (n + 1) k →
          (deskAfter h₀ es (n + 1)).host.disk.content? k ≠
            (deskAfter h₀ es n).host.disk.content? k →
          (deskAfter h₀ es n).EditsValue now action k)) := by
  have hsheet : ∀ k, ¬KeepsSettings h₀ es (n + 1) k →
      (deskAfter h₀ es (n + 1)).host.disk.content? k ≠ (deskAfter h₀ es n).host.disk.content? k →
      WritesSheet (deskAfter h₀ es n) now action k ((deskAfter h₀ es n).host.disk.content? k)
        ((deskAfter h₀ es (n + 1)).host.disk.content? k) := by
    intro k hother hchanged
    exact (writer_of_changed he hchanged).resolve_right fun hsettings => hother hsettings.1
  refine ⟨fun k _ => hsheet k, fun k hchanged hno => (writer_of_changed he hchanged).resolve_left hno,
    fun k hk => hk.cfg, fun hspares => ⟨fun f t hdue => ?_, fun hnone k _ hother hchanged => ?_⟩⟩
  · exact exists_failed_of_hasLeft hspares (hasLeft_of_due hdue)
  · cases hsheet k hother hchanged with
    | edits hedits => exact hedits
    | fails _ hfails => exact absurd ((hnone n le_rfl).symm.trans hfails.failing) (by simp)
    | settles _ hsettles =>
      obtain ⟨f, t, _, hdue, -⟩ := hsettles
      obtain ⟨m, hm, _, _, -, hfailed⟩ := exists_failed_of_hasLeft hspares (hasLeft_of_due hdue)
      exact absurd ((hnone m hm.le).symm.trans hfailed.failing) (by simp)

/-- The first sheet is shown, its value is set, and it is closed. -/
def valueRun : List Event :=
  [loadOf "a.txt", .user [] (.edit 0 1 (.text "5".toList) .edit), .user [] .close]

/-- The value is written to the sheet by its edit, and closing leaves the sheet as it is. -/
theorem sheet_written_by_edits_value :
    (deskAfter threeSheets valueRun 1).EditsValue [] (.edit 0 1 (.text "5".toList) .edit)
      ["a.txt".toList] ∧
    (deskAfter threeSheets valueRun 2).host.disk.content? ["a.txt".toList] =
      some (.text "\"x\"=5mm\n".toList) ∧
    (deskAfter threeSheets valueRun 3).host.disk.content? ["a.txt".toList] =
      (deskAfter threeSheets valueRun 2).host.disk.content? ["a.txt".toList] := by
  have hchanged : (deskAfter threeSheets valueRun (1 + 1)).host.disk.content? ["a.txt".toList] ≠
      (deskAfter threeSheets valueRun 1).host.disk.content? ["a.txt".toList] := by decide +kernel
  have hparts : (deskAfter threeSheets valueRun 1).window.current.map Path.parts =
      some ["a.txt".toList] := by decide +kernel
  obtain ⟨p, hp, hk⟩ := Option.map_eq_some_iff.1 hparts
  have hopened : ∀ n, 1 ≤ n → WasOpened threeSheets valueRun n ["a.txt".toList] :=
    fun n hn => ⟨1, hn, p, hp, hk⟩
  have hplace : ∀ n, ¬KeepsSettings threeSheets valueRun n ["a.txt".toList] := by
    rintro n ⟨k', -, hk⟩
    exact sidecarKey_ne ⟨['a'], by decide, rfl⟩ hk.symm
  have hedit : valueRun[1]? = some (.user [] (.edit 0 1 (.text "5".toList) .edit)) := rfl
  have hclose : valueRun[2]? = some (.user [] .close) := rfl
  have hspares : ∀ n m h, m < n → valueRun[m]? = some (.outside h) →
      (deskAfter threeSheets valueRun m).Spares h := by
    intro n m h _ hm
    have hmem := List.mem_of_getElem? hm
    simp [valueRun, loadOf] at hmem
  have hnone : ∀ m ≤ 2, (deskAfter threeSheets valueRun m).host.conditions.writeFault = none := by
    decide +kernel
  refine ⟨?_, by decide +kernel, ?_⟩
  · obtain ⟨-, -, -, hcalm⟩ := @sheet_written_by_edits threeSheets _ _ _ _ hedit
    exact (hcalm (hspares 1)).2 (fun m hm => hnone m (by omega)) _ (hopened 1 le_rfl)
      (hplace (1 + 1)) hchanged
  · rw [show (3 : ℕ) = 2 + 1 from rfl]
    by_contra hclosed
    obtain ⟨-, -, -, hcalm⟩ := @sheet_written_by_edits threeSheets _ _ _ _ hclose
    have hno := (hcalm (hspares 2)).2 hnone _ (hopened 2 (by decide)) (hplace (2 + 1)) hclosed
    obtain ⟨row, v, hrow⟩ := hno.edit
    exact absurd hrow (by simp)

/-- Where the text cannot be flushed the edit empties the sheet, and closing it writes the value. -/
example :
    let full : Host := { threeSheets with conditions := { writeFault := some .flush } }
    let run := [loadOf "a.txt", .user [] (.edit 0 1 (.text ['5']) .edit), .user [] .close]
    (deskAfter full run 2).host.disk.content? ["a.txt".toList] = some (.text []) ∧
    (deskAfter full run 3).host.disk.content? ["a.txt".toList] =
      some (.text "\"x\"=5mm\n".toList) := by
  decide +kernel

/-- A sheet under the name of settings. -/
def sheetAsSettings : Host where
  disk := { nodes := [(["a.cfg".toList], .file (.text "\"x\"=1mm\n".toList))] }
  directory := ⟨['/'], []⟩

/-- The sheet is shown and the settings are saved. -/
def overwritingRun : List Event := [loadOf "a.cfg", .user [] .save]

/-- **Saving the comments overwrites a sheet** that lies in the place of its own settings. -/
theorem saving_overwrites_sheet :
    WasOpened sheetAsSettings overwritingRun 1 ["a.cfg".toList] ∧
    overwritingRun[1]? = some (.user [] .save) ∧
    (deskAfter sheetAsSettings overwritingRun 1).host.disk.content? ["a.cfg".toList] =
      some (.text "\"x\"=1mm\n".toList) ∧
    (deskAfter sheetAsSettings overwritingRun 2).host.disk.content? ["a.cfg".toList] =
      some (.text ("\x7b\n  \"comments\": \x7b\x7d,\n  \"locked\": false,\n" ++
        "  \"log_level\": \"INFO\",\n  \"last_opened\": \"now\",\n" ++
        "  \"version\": 1\n\x7d").toList) := by
  have hparts : (deskAfter sheetAsSettings overwritingRun 1).window.current.map Path.parts =
      some ["a.cfg".toList] := by decide +kernel
  obtain ⟨p, hp, hk⟩ := Option.map_eq_some_iff.1 hparts
  refine ⟨⟨1, le_rfl, p, hp, hk⟩, rfl, ?_, ?_⟩
  all_goals decide +kernel

end Provenance

end EquationSheet
