import EquationSheet.Window.Desktop
import EquationSheet.Proofs.Frames

/-!
# What an action does to a desktop

A desktop shows the settings of a table, and would save them beside the sheet that was opened last.
These are two parts of its state, and an action of the user may change one without the other.

* `Desktop.pending`: the settings shown, with the path they would be saved beside.
* `Desktop.Leaves`: both parts are as before.
* `Desktop.heldLock`, `Desktop.due`: the one lock through which a window holds a sheet, and what is
  left to write through it.
* `closeSheet_cases`, `closeSheet_of_heldLock`: giving up a sheet is releasing this lock.
* `Desktop.opening`, `Desktop.settingsFor`: the sheet that a load opens, and its settings.
* `load_of_opening_none`, `load_of_opening`: what a load does, according to what it opens.
* `showing_of_none`, `showing_of_settings`: an opened sheet is shown, or only its path is kept.
* `content?_closeCurrent`: which files change.
* `set_cases`, `set_frame`: what an edit does, and what it leaves alone.
-/

namespace EquationSheet.Desktop

/-- The settings of the table shown. -/
def settings? (d : Desktop) : Option Members := d.window.table.map Table.settings

/-- What would be saved: the settings shown, with the path they would be saved beside. -/
def pending (d : Desktop) : Option (Path × Members) :=
  match d.window.current, d.settings? with
  | some p, some cfg => some (p, cfg)
  | _, _ => none

/-- The open file that edits of values are written to. -/
def file? (d : Desktop) : Option OpenFile := d.window.table.bind fun t => t.source.file?

/-- The names in the table shown. -/
def names? (d : Desktop) : Option (List Text) := d.window.table.map Table.names

/-- The lock of the sheet that is held. -/
def heldLock (d : Desktop) : Option FileLock :=
  match d.window.held with
  | .nothing => none
  | .unshown sheet => some sheet.lock
  | .shown => d.window.table.bind fun t => t.source.lock?

/-- The text that is written when the sheet held is closed. -/
def due (d : Desktop) : Option (OpenFile × Text) := d.heldLock.bind fun l => l.due d.host

/-- The path, the settings and the names are the same as before; the file may have been closed. -/
structure Leaves (d d' : Desktop) : Prop where
  current : d'.window.current = d.window.current
  settings : d'.settings? = d.settings?
  names : d'.names? = d.names?
  file : d'.file? = d.file? ∨ d'.file? = none

variable {d d' d'' : Desktop} {p q : Path} {k : Key}

theorem Leaves.refl (d : Desktop) : Leaves d d := ⟨rfl, rfl, rfl, .inl rfl⟩

theorem Leaves.trans (h : Leaves d d') (h' : Leaves d' d'') : Leaves d d'' where
  current := h'.current.trans h.current
  settings := h'.settings.trans h.settings
  names := h'.names.trans h.names
  file := by
    rcases h'.file with hf | hf
    · rw [hf]
      exact h.file
    · exact .inr hf

theorem leaves_of_window (h : d'.window.current = d.window.current)
    (ht : d'.window.table = d.window.table) : Leaves d d' :=
  ⟨h, by unfold settings?; rw [ht], by unfold names?; rw [ht], .inl (by unfold file?; rw [ht])⟩

/-- The window is the same in all that says what is held. -/
theorem heldLock_congr (hheld : d'.window.held = d.window.held)
    (htable : d'.window.table = d.window.table) : d'.heldLock = d.heldLock := by
  unfold heldLock
  rw [hheld, htable]

theorem heldLock_of_nothing (hheld : d.window.held = .nothing) : d.heldLock = none := by
  unfold heldLock
  rw [hheld]

/-- What is left to write depends on the lock held, and on what its files have left to write. -/
theorem due_congr (hlock : d'.heldLock = d.heldLock)
    (hconditions : d'.host.conditions = d.host.conditions)
    (hunwritten : d'.host.disk.unwritten = d.host.disk.unwritten) : d'.due = d.due := by
  unfold due FileLock.due Disk.unwritten?
  rw [hlock, hconditions, hunwritten]

theorem Leaves.pending (h : Leaves d d') : d'.pending = d.pending := by
  unfold Desktop.pending
  rw [h.current, h.settings]

theorem pending_eq_some {cfg : Members} :
    d.pending = some (p, cfg) ↔ d.window.current = some p ∧ d.settings? = some cfg := by
  unfold pending
  cases d.window.current <;> cases d.settings? <;> simp

theorem leaves_report (d : Desktop) (notices : List Notice) : Leaves d (d.report notices) :=
  leaves_of_window rfl rfl

theorem leaves_applyFilter (d : Desktop) (filter : Text) : Leaves d (d.applyFilter filter) := by
  unfold applyFilter
  split
  · exact .refl d
  · exact leaves_report d _

theorem table_applyFilter (d : Desktop) (filter : Text) :
    (d.applyFilter filter).window.table = d.window.table := by
  unfold applyFilter
  split <;> rfl

theorem table_setFilter (d : Desktop) (filter : Text) :
    (d.setFilter filter).window.table = d.window.table := by
  unfold setFilter
  split
  · rfl
  · exact table_applyFilter _ filter

theorem held_applyFilter (d : Desktop) (filter : Text) :
    (d.applyFilter filter).window.held = d.window.held := by
  unfold applyFilter
  split <;> rfl

theorem leaves_setFilter (d : Desktop) (filter : Text) : Leaves d (d.setFilter filter) := by
  unfold setFilter
  split
  · exact .refl d
  · have hwindow : Leaves d { d with window := { d.window with filter := filter } } :=
      leaves_of_window rfl rfl
    exact hwindow.trans (leaves_applyFilter _ filter)

theorem host_applyFilter (d : Desktop) (filter : Text) : (d.applyFilter filter).host = d.host := by
  unfold applyFilter
  split <;> rfl

theorem host_setFilter (d : Desktop) (filter : Text) : (d.setFilter filter).host = d.host := by
  unfold setFilter
  split
  · rfl
  · exact host_applyFilter _ filter

/-- The host may be another one, and what was reported tells of no row. -/
def Reports (d d' : Desktop) : Prop :=
  ∃ h notices, (∀ index hidden, Notice.row index hidden ∉ notices) ∧
    d' = report { d with host := h } notices

theorem reports_host (d : Desktop) (h : Host) : Reports d { d with host := h } :=
  ⟨h, [], by simp, by simp [report]⟩

theorem Reports.refl (d : Desktop) : Reports d d := reports_host d d.host

theorem reports_alert (d : Desktop) (h : Host) (message : String) :
    Reports d ({ d with host := h }.alert message) := ⟨h, _, by simp, rfl⟩

theorem Reports.leaves (h : Reports d d') : Leaves d d' := by
  obtain ⟨h, notices, -, rfl⟩ := h
  exact leaves_of_window rfl rfl

theorem Reports.held (h : Reports d d') : d'.window.held = d.window.held := by
  obtain ⟨h, notices, -, rfl⟩ := h
  rfl

theorem Reports.table (h : Reports d d') : d'.window.table = d.window.table := by
  obtain ⟨h, notices, -, rfl⟩ := h
  rfl

/-! ### Saving and closing -/

/-- The path of the sheet opened last has no double dots. -/
def Plain (d : Desktop) : Prop := ∀ p, d.window.current = some p → ['.', '.'] ∉ p.parts

/-- The settings of a table are saved beside sheets only. -/
def Sound (d : Desktop) : Prop :=
  ∀ p, d.window.current = some p → IsSheetKey p.parts ∧ ['.', '.'] ∉ p.parts

theorem Sound.plain (hd : d.Sound) : d.Plain := fun p hp => (hd p hp).2

theorem Leaves.plain (h : Leaves d d') (hd : d.Plain) : d'.Plain := by
  intro p hp
  rw [h.current] at hp
  exact hd p hp

/-- The text under a key is what is written of the settings shown, saved beside the sheet opened last.
-/
def Saves (d : Desktop) (k : Key) (content : Option Content) : Prop :=
  ∃ p cfg, d.pending = some (p, cfg) ∧ k = sidecarKey p.parts ∧
    content = some (.text (Settings.written d.host.conditions (.obj cfg)).2)

/-- A file holds what was left to write to the sheet held, over what it held before. -/
def Settles (d : Desktop) (k : Key) (before after : Option Content) : Prop :=
  ∃ f t content, d.due = some (f, t) ∧ k = f.key ∧ before = some content ∧
    after = some (content.overwrite t)

/-- Saving reports what it comes to. -/
theorem reports_saveSettings (d : Desktop) : Reports d d.saveSettings.2 := by
  unfold saveSettings
  split
  · split
    · exact .refl d
    · simp only
      split
      · exact ⟨_, _, by simp, rfl⟩
      · exact ⟨_, _, by simp, rfl⟩
      · exact reports_host d _
  · exact .refl d

theorem leaves_saveSettings (d : Desktop) : Leaves d d.saveSettings.2 :=
  (reports_saveSettings d).leaves

/-- Saving leaves the conditions, the locks, and what files have left to write. -/
theorem frame_saveSettings (d : Desktop) :
    d.saveSettings.2.host.conditions = d.host.conditions ∧
      d.saveSettings.2.host.disk.owners = d.host.disk.owners ∧
      d.saveSettings.2.host.disk.nextId = d.host.disk.nextId ∧
      d.saveSettings.2.host.disk.unwritten = d.host.disk.unwritten := by
  unfold saveSettings
  split
  · rename_i p t _ _
    split
    · exact ⟨rfl, rfl, rfl, rfl⟩
    · rename_i sidecar _
      have hframe := Settings.save_frame sidecar (.obj t.settings) d.host
      simp only
      generalize Settings.save sidecar (.obj t.settings) d.host = out at hframe ⊢
      rcases out with ⟨fault | _, h⟩
      · cases fault <;> exact hframe
      · exact hframe
  · exact ⟨rfl, rfl, rfl, rfl⟩

theorem window_saveSettings (d : Desktop) :
    d.saveSettings.2.window.held = d.window.held ∧
      d.saveSettings.2.window.table = d.window.table := by
  obtain ⟨h, notices, -, hsave⟩ := reports_saveSettings d
  rw [hsave]
  exact ⟨rfl, rfl⟩

theorem heldLock_saveSettings (d : Desktop) : d.saveSettings.2.heldLock = d.heldLock :=
  heldLock_congr (window_saveSettings d).1 (window_saveSettings d).2

theorem due_saveSettings (d : Desktop) : d.saveSettings.2.due = d.due :=
  due_congr (heldLock_saveSettings d) (frame_saveSettings d).1 (frame_saveSettings d).2.2.2

/-- **Saving** changes no file but the settings beside the sheet opened last. -/
theorem content?_saveSettings (hd : d.Plain) (k : Key) :
    d.saveSettings.2.host.disk.content? k = d.host.disk.content? k ∨
      d.Saves k (d.saveSettings.2.host.disk.content? k) := by
  unfold saveSettings
  split
  · rename_i p t hp ht
    split
    · exact .inl rfl
    · rename_i sidecar hsidecar
      have hkey := sidecar?_parts hsidecar
      have hne : sidecar.parts ≠ [] := by rw [hkey]; simp [sidecarKey]
      have hdots : ['.', '.'] ∉ sidecar.parts := by rw [hkey]; exact not_mem_sidecarKey (hd p hp)
      have hsave := Settings.content?_save (h := d.host) (j := .obj t.settings) hdots hne k
      have hpending : d.pending = some (p, t.settings) :=
        pending_eq_some.2 ⟨hp, by simp [settings?, ht]⟩
      have hboth : (Settings.save sidecar (.obj t.settings) d.host).2.disk.content? k =
          d.host.disk.content? k ∨
          d.Saves k ((Settings.save sidecar (.obj t.settings) d.host).2.disk.content? k) := by
        rcases hsave with hsame | ⟨hk, htext⟩
        · exact .inl hsame
        · exact .inr ⟨p, t.settings, hpending, hk.trans hkey, htext⟩
      simp only
      generalize Settings.save sidecar (.obj t.settings) d.host = out at hboth ⊢
      rcases out with ⟨fault | _, h⟩
      · cases fault <;> exact hboth
      · exact hboth
  · exact .inl rfl

/-! ### Giving up the sheet held -/

theorem letGo_fst (d : Desktop) (outcome : Except Fault Unit) : (d.letGo outcome).1 = outcome := by
  cases outcome <;> rfl

theorem host_letGo (d : Desktop) (outcome : Except Fault Unit) :
    (d.letGo outcome).2.host = d.host := by
  cases outcome <;> rfl

theorem table_letGo (d : Desktop) (outcome : Except Fault Unit) :
    (d.letGo outcome).2.window.table = d.window.table := by
  cases outcome <;> rfl

theorem leaves_letGo (d : Desktop) (outcome : Except Fault Unit) : Leaves d (d.letGo outcome).2 := by
  cases outcome <;> exact leaves_of_window rfl rfl

theorem heldLock_letGo (d : Desktop) (outcome : Except Fault Unit) :
    (d.letGo outcome).2.heldLock = if outcome = .ok () then none else d.heldLock := by
  cases outcome <;> rfl

/-- The window after the sheet it does not show was closed. -/
def closeUnshown (d : Desktop) (sheet : SheetFile) : Desktop :=
  ⟨{ d.window with held := .unshown (sheet.tryClose d.host).2.1 }, (sheet.tryClose d.host).2.2⟩

/-- The window after the sheet under its table was closed. -/
def closeUnder (d : Desktop) (t : Table) (sheet : SheetFile) : Desktop :=
  ⟨{ d.window with table := some { t with source := .file (sheet.tryClose d.host).2.1 } },
    (sheet.tryClose d.host).2.2⟩

/-- **All that giving up a sheet can be**: closing one that is not shown, closing the one under the
table, or nothing but a word. -/
theorem closeSheet_cases (d : Desktop) :
    (∃ sheet, d.window.held = .unshown sheet ∧
      d.closeSheet = (d.closeUnshown sheet).letGo (sheet.tryClose d.host).1) ∨
    (∃ t sheet, d.window.held = .shown ∧ d.window.table = some t ∧ t.source = .file sheet ∧
      d.closeSheet = (d.closeUnder t sheet).letGo (sheet.tryClose d.host).1) ∨
    (d.heldLock = none ∧ (∀ sheet, d.window.held ≠ .unshown sheet) ∧
      d.closeSheet = d.letGo (.ok ())) := by
  unfold closeSheet heldLock
  cases hheld : d.window.held with
  | nothing => exact .inr (.inr ⟨rfl, by simp, rfl⟩)
  | unshown sheet => exact .inl ⟨sheet, rfl, rfl⟩
  | shown =>
    right
    cases ht : d.window.table with
    | none => exact .inr ⟨rfl, by simp, rfl⟩
    | some t =>
      simp only [Option.bind_some]
      cases hsource : t.source with
      | memory slots refuses => exact .inr ⟨rfl, by simp, rfl⟩
      | file sheet => exact .inl ⟨t, sheet, trivial, rfl, hsource, rfl⟩

theorem heldLock_of_unshown {sheet : SheetFile} (hheld : d.window.held = .unshown sheet) :
    d.heldLock = some sheet.lock := by
  unfold heldLock
  rw [hheld]

theorem heldLock_of_shown {t : Table} {sheet : SheetFile} (hheld : d.window.held = .shown)
    (ht : d.window.table = some t) (hsource : t.source = .file sheet) :
    d.heldLock = some sheet.lock := by
  unfold heldLock
  rw [hheld, ht]
  simp only [Option.bind_some, hsource, SlotSource.lock?]

/-- Where no lock is held there is nothing to close. -/
theorem closeSheet_of_none (hl : d.heldLock = none) : d.closeSheet = d.letGo (.ok ()) := by
  rcases closeSheet_cases d with ⟨sheet, hheld, -⟩ | ⟨t, sheet, hheld, ht, hsource, -⟩ | ⟨-, -, hclose⟩
  · rw [heldLock_of_unshown hheld] at hl
    simp at hl
  · rw [heldLock_of_shown hheld ht hsource] at hl
    simp at hl
  · exact hclose

/-- **Giving up a sheet** is releasing the lock that is held. Where that fails the sheet is held
still. -/
theorem closeSheet_of_heldLock {l : FileLock} (hl : d.heldLock = some l) :
    d.closeSheet.1 = (l.tryRelease d.host).1 ∧
      d.closeSheet.2.host = (l.tryRelease d.host).2.2 ∧
      d.closeSheet.2.heldLock =
        if (l.tryRelease d.host).1 = .ok () then none else some (l.tryRelease d.host).2.1 := by
  rcases closeSheet_cases d with ⟨sheet, hheld, hclose⟩ | ⟨t, sheet, hheld, ht, hsource, hclose⟩ |
    ⟨hnone, -, -⟩
  · obtain rfl := Option.some.inj ((heldLock_of_unshown hheld).symm.trans hl)
    rw [hclose]
    exact ⟨letGo_fst _ _, host_letGo _ _, heldLock_letGo _ _⟩
  · obtain rfl := Option.some.inj ((heldLock_of_shown hheld ht hsource).symm.trans hl)
    rw [hclose]
    refine ⟨letGo_fst _ _, host_letGo _ _, (heldLock_letGo _ _).trans ?_⟩
    rw [heldLock_of_shown (d := d.closeUnder t sheet) hheld rfl rfl]
    rfl
  · rw [hnone] at hl
    simp at hl

/-- A lock that is held after a sheet was given up is one whose release failed. -/
theorem exists_of_heldLock_closeSheet {l' : FileLock} (hl' : d.closeSheet.2.heldLock = some l') :
    ∃ l, d.heldLock = some l ∧ (l.tryRelease d.host).1 ≠ .ok () ∧
      l' = (l.tryRelease d.host).2.1 ∧ d.closeSheet.2.host = (l.tryRelease d.host).2.2 := by
  cases hl : d.heldLock with
  | none =>
    rw [closeSheet_of_none hl, heldLock_letGo, if_pos rfl] at hl'
    simp at hl'
  | some l =>
    obtain ⟨-, hhost, hheld⟩ := closeSheet_of_heldLock hl
    rw [hheld] at hl'
    split at hl'
    · simp at hl'
    · rename_i hfails
      exact ⟨l, rfl, hfails, (Option.some.inj hl').symm, hhost⟩

theorem leaves_closeSheet (d : Desktop) : Leaves d d.closeSheet.2 := by
  rcases closeSheet_cases d with ⟨sheet, -, hclose⟩ | ⟨t, sheet, -, ht, hsource, hclose⟩ |
    ⟨-, -, hclose⟩
  · have hleaves : Leaves d (d.closeUnshown sheet) := leaves_of_window rfl rfl
    rw [hclose]
    exact hleaves.trans (leaves_letGo _ _)
  · have hleaves : Leaves d (d.closeUnder t sheet) := by
      refine ⟨rfl, by simp [settings?, ht, closeUnder], by simp [names?, ht, Table.names, closeUnder],
        ?_⟩
      simp only [file?, ht, Option.bind_some, hsource, SlotSource.file?]
      exact sheet.lock.tryRelease_file d.host
    rw [hclose]
    exact hleaves.trans (leaves_letGo _ _)
  · rw [hclose]
    exact leaves_letGo d _

/-- **Giving up a sheet** changes no file but its own, and that only where something was left to
write to it. -/
theorem content?_closeSheet (d : Desktop) (k : Key) :
    d.closeSheet.2.host.disk.content? k = d.host.disk.content? k ∨
      d.Settles k (d.host.disk.content? k) (d.closeSheet.2.host.disk.content? k) := by
  cases hl : d.heldLock with
  | none =>
    rw [closeSheet_of_none hl]
    exact .inl rfl
  | some l =>
    rw [(closeSheet_of_heldLock hl).2.1]
    refine (l.content?_tryRelease d.host k).imp_right ?_
    rintro ⟨f, t, content, hdue, hk, hbefore, hafter⟩
    exact ⟨f, t, content, by rw [due, hl]; exact hdue, hk, hbefore, hafter⟩

theorem conditions_closeSheet (d : Desktop) :
    d.closeSheet.2.host.conditions = d.host.conditions := by
  cases hl : d.heldLock with
  | none =>
    rw [closeSheet_of_none hl]
    rfl
  | some l =>
    rw [(closeSheet_of_heldLock hl).2.1]
    exact l.conditions_tryRelease d.host

/-- **What closing comes to.** If anything is held its settings are saved, and it is given up unless
saving ended in a fault. -/
theorem closeCurrent_cases (d : Desktop) :
    (d.window.held = .nothing ∧ d.closeCurrent = (.ok (), d)) ∨
      (∃ fault, d.window.held ≠ .nothing ∧ d.saveSettings.1 = .error fault ∧
        d.closeCurrent = (.error fault, d.saveSettings.2)) ∨
      (d.window.held ≠ .nothing ∧ d.saveSettings.1 = .ok () ∧
        d.closeCurrent = d.saveSettings.2.closeSheet) := by
  unfold closeCurrent
  split
  · exact .inl ⟨‹_›, rfl⟩
  · rename_i hheld
    rcases d.saveSettings with ⟨fault | _, d₁⟩
    · exact .inr (.inl ⟨fault, hheld, rfl, rfl⟩)
    · exact .inr (.inr ⟨hheld, rfl, rfl⟩)

theorem leaves_closeCurrent (d : Desktop) : Leaves d d.closeCurrent.2 := by
  have hsave := leaves_saveSettings d
  rcases closeCurrent_cases d with ⟨-, hclose⟩ | ⟨fault, -, -, hclose⟩ | ⟨-, -, hclose⟩
  · rw [hclose]
    exact .refl d
  · rw [hclose]
    exact hsave
  · rw [hclose]
    exact hsave.trans (leaves_closeSheet _)

theorem conditions_closeCurrent (d : Desktop) :
    d.closeCurrent.2.host.conditions = d.host.conditions := by
  have hsave := (frame_saveSettings d).1
  rcases closeCurrent_cases d with ⟨-, hclose⟩ | ⟨fault, -, -, hclose⟩ | ⟨-, -, hclose⟩
  · rw [hclose]
  · rw [hclose]
    exact hsave
  · rw [hclose, conditions_closeSheet]
    exact hsave

/-- **Closing** changes no file but the settings beside the sheet opened last, and the sheet itself
where something was left to write to it. -/
theorem content?_closeCurrent (hd : d.Plain) (k : Key) :
    d.closeCurrent.2.host.disk.content? k = d.host.disk.content? k ∨
      d.Saves k (d.closeCurrent.2.host.disk.content? k) ∨
      d.Settles k (d.saveSettings.2.host.disk.content? k)
        (d.closeCurrent.2.host.disk.content? k) := by
  have hsave := content?_saveSettings hd k
  rcases closeCurrent_cases d with ⟨-, hclose⟩ | ⟨fault, -, -, hclose⟩ | ⟨-, -, hclose⟩
  · rw [hclose]
    exact .inl rfl
  · rw [hclose]
    exact hsave.imp_right .inl
  · rw [hclose]
    rcases content?_closeSheet d.saveSettings.2 k with hsame | ⟨f, t, content, hdue, hsettles⟩
    · rw [hsame]
      exact hsave.imp_right .inl
    · rw [due_saveSettings] at hdue
      exact .inr (.inr ⟨f, t, content, hdue, hsettles⟩)

/-- A file to which nothing is left to write keeps its content when the window closes, unless it holds
the settings. -/
theorem content?_closeCurrent_of_due (hd : d.Plain) (hk : ∀ f t, d.due = some (f, t) → k ≠ f.key) :
    d.closeCurrent.2.host.disk.content? k = d.host.disk.content? k ∨
      d.Saves k (d.closeCurrent.2.host.disk.content? k) := by
  rcases content?_closeCurrent hd k with hsame | hsaves | ⟨f, t, _, hdue, hkey, -⟩
  · exact .inl hsame
  · exact .inr hsaves
  · exact absurd hkey (hk f t hdue)

/-! ### Loading -/

/-- What a load opens: the path, the sheet, and the host it leaves. -/
def opening (d : Desktop) (q : Path) : Option (Path × SheetFile × Host) :=
  match d.closeCurrent with
  | (.error _, _) => none
  | (.ok (), d) =>
    if !q.isNameable then none
    else
      match d.host.disk.pathExists (d.host.resolve q) with
      | .ok true =>
        match SheetFile.load (d.host.resolve q) d.host with
        | (.ok sheet, h) => some (d.host.resolve q, sheet, h)
        | (.error _, _) => none
      | _ => none

/-- The settings that a sheet is shown under: those kept beside it, reconciled with its names. -/
def settingsFor (p : Path) (sheet : SheetFile) (now : Text) (h : Host) : Option Members :=
  match Store.names sheet.slots, p.sidecar? with
  | .ok names, some sidecar =>
    match (Settings.load sidecar h).1 with
    | .error _ => none
    | .ok ms =>
      match Settings.reconcile names now ms with
      | (.ok (), ms) => some ms
      | (.error _, _) => none
  | _, _ => none

/-- What becomes of a sheet that was opened. -/
def showing (d : Desktop) (p : Path) (sheet : SheetFile) (now : Text) :
    Except Fault Unit × Desktop :=
  match Store.names sheet.slots with
  | .error e => (d.alert ("Failed to read equations: " ++ e.message)).closeCurrent
  | .ok names => d.showSheet p sheet names now

variable {now : Text} {sheet : SheetFile} {h : Host}

theorem load_content? (p : Path) (h : Host) (k : Key) :
    (SheetFile.load p h).2.disk.content? k = h.disk.content? k := by
  rcases SheetFile.load_cases p h with ⟨fault, h', hload, hshut⟩ |
    ⟨s, f, t, h', hload, hopened, -, -⟩
  · rw [hload]
    exact Disk.content?_of_nodes hshut.keeps.nodes k
  · rw [hload]
    exact Disk.content?_of_nodes hopened.keeps.nodes k

/-- A load that opens nothing closes what was open, and reports why. -/
theorem reports_of_opening_none (ho : d.opening q = none) (now : Text) :
    Reports d.closeCurrent.2 (d.load q now).2 ∧ ∀ k, (d.load q now).2.host.disk.content? k =
      d.closeCurrent.2.host.disk.content? k := by
  unfold opening at ho
  unfold load
  generalize d.closeCurrent = out at ho ⊢
  rcases out with ⟨fault | _, d₁⟩
  · exact ⟨.refl d₁, fun _ => rfl⟩
  simp only at ho ⊢
  split
  · exact ⟨.refl d₁, fun _ => rfl⟩
  rename_i hname
  rw [if_neg hname] at ho
  split
  · exact ⟨.refl d₁, fun _ => rfl⟩
  · rename_i hexists
    rw [hexists] at ho
    have hload := load_content? (d₁.host.resolve q) d₁.host
    unfold openSheet
    generalize SheetFile.load (d₁.host.resolve q) d₁.host = out at ho hload ⊢
    rcases out with ⟨fault | sheet, h⟩
    · cases fault with
      | file f => exact ⟨reports_alert d₁ h _, hload⟩
      | _ => exact ⟨reports_host d₁ h, hload⟩
    · simp at ho
  · exact ⟨reports_alert d₁ d₁.host _, fun _ => rfl⟩

/-- **A load that opens nothing** closes what was open, and no more. -/
theorem load_of_opening_none (ho : d.opening q = none) (now : Text) :
    Leaves d (d.load q now).2 ∧ ∀ k, (d.load q now).2.host.disk.content? k =
      d.closeCurrent.2.host.disk.content? k :=
  (reports_of_opening_none ho now).imp_left fun hreports =>
    (leaves_closeCurrent d).trans hreports.leaves

/-- What was there when a sheet was opened. -/
theorem exists_of_opening (ho : d.opening q = some (p, sheet, h)) : ∃ d₁,
    d.closeCurrent = (.ok (), d₁) ∧ q.isNameable = true ∧ d₁.host.resolve q = p ∧
      d₁.host.disk.pathExists p = .ok true ∧ SheetFile.load p d₁.host = (.ok sheet, h) := by
  unfold opening at ho
  generalize d.closeCurrent = out at ho ⊢
  rcases out with ⟨fault | _, d₁⟩
  · simp at ho
  simp only at ho
  split at ho
  · simp at ho
  rename_i hname
  split at ho
  · rename_i hexists
    split at ho
    · rename_i sheet' h' hload
      simp only [Option.some.injEq, Prod.mk.injEq] at ho
      obtain ⟨rfl, rfl, rfl⟩ := ho
      exact ⟨d₁, rfl, by simpa using hname, rfl, hexists, hload⟩
    · simp at ho
  · simp at ho

/-- A load works under the same conditions to its end. -/
theorem conditions_of_opening (ho : d.opening q = some (p, sheet, h)) :
    h.conditions = d.host.conditions := by
  obtain ⟨d₁, hclose, -, -, -, hload⟩ := exists_of_opening ho
  have hsame := SheetFile.conditions_load p d₁.host
  have hbefore := conditions_closeCurrent d
  rw [hload] at hsame
  rw [hclose] at hbefore
  exact hsame.trans hbefore

/-- A sheet just opened has nothing left to write. -/
theorem due_hold (d : Desktop) {h₀ : Host} (hload : SheetFile.load p h₀ = (.ok sheet, h)) :
    (d.hold p sheet h).due = none := by
  obtain ⟨f, hopened⟩ := SheetFile.opened_of_load hload
  exact FileLock.due_of_settled hopened.settled

/-- **A load that opens a sheet** keeps its path, and shows it or not. -/
theorem load_of_opening (ho : d.opening q = some (p, sheet, h)) (now : Text) :
    d.load q now = (d.closeCurrent.2.hold p sheet h).showing p sheet now ∧
      ['.', '.'] ∉ p.parts ∧ (∀ f, sheet.lock.file = some f → f.key = p.parts) ∧
      (d.closeCurrent.2.hold p sheet h).due = none ∧
      ∀ k, h.disk.content? k = d.closeCurrent.2.host.disk.content? k := by
  obtain ⟨d₁, hclose, hname, rfl, hexists, hload⟩ := exists_of_opening ho
  have hdots : ['.', '.'] ∉ (d₁.host.resolve q).parts := Path.not_mem_collapse _
  refine ⟨?_, hdots, fun f hf => ?_, due_hold _ hload, fun k => ?_⟩
  · unfold load openSheet
    simp only [hclose, hname, hexists, hload, Bool.not_true, Bool.false_eq_true, if_false]
    rfl
  · -- the lock holds the file that the path leads to
    rcases SheetFile.load_cases (d₁.host.resolve q) d₁.host with ⟨fault, h'', hload', -⟩ |
      ⟨s, f', t, h'', hload', hopened, -, -⟩
    · rw [hload] at hload'
      simp at hload'
    · rw [hload, Prod.mk.injEq, Except.ok.injEq] at hload'
      obtain ⟨rfl, rfl⟩ := hload'
      rw [hopened.file] at hf
      obtain rfl := Option.some.inj hf
      exact Disk.locateFile_eq hdots hopened.located
  · have hcontent := load_content? (d₁.host.resolve q) d₁.host k
    rw [hload] at hcontent
    rw [hclose]
    exact hcontent

/-! ### Showing -/

/-- A sheet whose names can be read always gets its table. -/
theorem create_of_names {names : List Text} (hn : Store.names sheet.slots = .ok names)
    (cfg : Members) (readonly : Bool) : ∃ t, Table.create (.file sheet) cfg readonly = .ok t ∧
      t.settings = cfg ∧ t.source = .file sheet := by
  unfold Store.names at hn
  cases hrows : Store.entries sheet.slots with
  | error e => rw [hrows] at hn; simp [Except.map] at hn
  | ok rows =>
    refine ⟨⟨.file sheet, cfg, rows, readonly⟩, ?_, rfl, rfl⟩
    simp only [Table.create, Table.reload, SlotSource.texts, hrows]

/-- A table that is made writes to the slots it was made of, under the settings given. -/
theorem create_eq {source : SlotSource} {cfg : Members} {readonly : Bool} {t : Table}
    (h : Table.create source cfg readonly = .ok t) :
    t.source = source ∧ t.settings = cfg ∧ Store.entries source.texts = .ok t.rows := by
  unfold Table.create Table.reload at h
  cases hrows : Store.entries source.texts with
  | error e => simp [hrows] at h
  | ok rows =>
    simp only [hrows, Except.ok.injEq] at h
    subst h
    exact ⟨rfl, rfl, rfl⟩

/-- A sheet is shown in a table under settings, and is held by it. -/
structure Displays (d : Desktop) (sheet : SheetFile) (cfg : Members) (t : Table) : Prop where
  table : d.window.table = some t
  settings : t.settings = cfg
  source : t.source = .file sheet
  rows : Store.entries sheet.slots = .ok t.rows
  held : d.window.held = .shown

/-- What showing a sheet with settings comes to: a table, and the filter applied to it. -/
theorem showing_eq_of_settings {cfg : Members} (hs : settingsFor p sheet now d.host = some cfg) :
    ∃ t h message, Table.create (.file sheet) cfg sheet.readonly = .ok t ∧
      h.disk = d.host.disk ∧ d.showing p sheet now = (.ok (),
        (applyFilter ⟨{ d.window with table := some t, held := .shown }, h⟩
          d.window.filter).report [.status message]) := by
  unfold settingsFor at hs
  split at hs
  · rename_i names sidecar hn hsidecar
    obtain ⟨t, hcreate, -⟩ := create_of_names hn cfg sheet.readonly
    have hdisk := Settings.load_disk sidecar d.host
    unfold showing showSheet
    rw [hn, hsidecar]
    simp only
    generalize Settings.load sidecar d.host = out at hs hdisk ⊢
    rcases out with ⟨fault | ms, h⟩
    · simp at hs
    simp only at hs hdisk ⊢
    generalize Settings.reconcile names now ms = out at hs ⊢
    rcases out with ⟨fault | _, config⟩
    · simp at hs
    obtain rfl := Option.some.inj hs
    simp only [hcreate]
    exact ⟨t, h, _, rfl, hdisk, rfl⟩
  · simp at hs

/-- **A sheet with settings is shown** under them. -/
theorem showing_of_settings {cfg : Members} (hs : settingsFor p sheet now d.host = some cfg) :
    (d.showing p sheet now).1 = .ok () ∧ (∃ t, (d.showing p sheet now).2.Displays sheet cfg t) ∧
      (d.showing p sheet now).2.window.current = d.window.current ∧
      (d.showing p sheet now).2.host.disk = d.host.disk := by
  obtain ⟨t, h, message, hcreate, hdisk, hshowing⟩ := showing_eq_of_settings hs
  obtain ⟨hsource, hsettings, hrows⟩ := create_eq hcreate
  rw [hshowing]
  refine ⟨rfl, ⟨t, ?_, hsettings, hsource, hrows, ?_⟩, ?_, ?_⟩
  · simp only [report, table_applyFilter]
  · simp only [report, held_applyFilter]
  · exact (leaves_applyFilter _ _).current
  · simp only [report, host_applyFilter, hdisk]

/-- A sheet without settings is closed at once if its names cannot be read. Else it stays open, with
the table of before. -/
theorem showing_cases_of_none (hs : settingsFor p sheet now d.host = none) :
    (∃ message, (d.showing p sheet now).2 = (d.alert message).closeCurrent.2) ∨
      ∃ h, h.disk = d.host.disk ∧ (d.showing p sheet now).2 = { d with host := h } := by
  unfold showing
  unfold settingsFor at hs
  cases hn : Store.names sheet.slots with
  | error e => exact .inl ⟨_, rfl⟩
  | ok names =>
    rw [hn] at hs
    unfold showSheet
    cases hsidecar : p.sidecar? with
    | none => exact .inr ⟨d.host, rfl, rfl⟩
    | some sidecar =>
      rw [hsidecar] at hs
      have hdisk := Settings.load_disk sidecar d.host
      simp only at hs ⊢
      generalize Settings.load sidecar d.host = out at hs hdisk ⊢
      rcases out with ⟨fault | ms, h⟩
      · exact .inr ⟨h, hdisk, rfl⟩
      simp only at hs hdisk ⊢
      generalize Settings.reconcile names now ms = out at hs ⊢
      rcases out with ⟨fault | _, config⟩
      · exact .inr ⟨h, hdisk, rfl⟩
      · simp at hs

/-- A sheet without settings is not shown. One whose names cannot be read is closed at once, and
this saves the settings of another sheet beside it. -/
theorem showing_of_none (hs : settingsFor p sheet now d.host = none) (hd : d.Plain)
    (hdue : d.due = none) :
    Leaves d (d.showing p sheet now).2 ∧ ∀ k,
      (d.showing p sheet now).2.host.disk.content? k = d.host.disk.content? k ∨
        d.Saves k ((d.showing p sheet now).2.host.disk.content? k) := by
  rcases showing_cases_of_none hs with ⟨message, hshowing⟩ | ⟨h, hdisk, hshowing⟩
  · -- the path is that of the new sheet already, the settings are not
    have halert : Leaves d (d.alert message) := leaves_report d _
    rw [hshowing]
    refine ⟨halert.trans (leaves_closeCurrent _), fun k => ?_⟩
    have hnone : (d.alert message).due = none := hdue
    have hclose := content?_closeCurrent_of_due (k := k) (halert.plain hd) (by simp [hnone])
    unfold Saves at hclose ⊢
    rw [halert.pending] at hclose
    exact hclose
  · rw [hshowing]
    exact ⟨leaves_of_window rfl rfl, fun k => .inl (by simp only [hdisk])⟩

/-! ### Editing -/

/-- One comment is changed. -/
def EditsComment (cfg cfg' : Members) : Prop :=
  ∃ name t, Settings.setComment cfg name t = .ok cfg'

variable {t : Table} {name : Text} {v : Scalar} {x : Binary64}

theorem reload_settings (t : Table) : t.reload.2.1.settings = t.settings := by
  unfold Table.reload
  split <;> rfl

theorem reload_source (t : Table) : t.reload.2.1.source = t.source := by
  unfold Table.reload
  split <;> rfl

/-- **Setting a number** sets it in the slots and reads the rows again, or leaves the table. -/
theorem setNumber_cases (t : Table) (name : Text) (x : Binary64) (h : Host) :
    (t.setNumber name x h).2.disk = (Store.setOne t.source name (.float x) h).2.disk ∧
    ((∃ r source, (Store.setOne t.source name (.float x) h).1 = .ok (some r, source) ∧
        (t.setNumber name x h).1.table = (Table.reload { t with source := source }).2.1 ∧
        (t.setNumber name x h).1.outcome =
          (Table.reload { t with source := source }).1.map fun _ => true) ∨
      (∀ r source, (Store.setOne t.source name (.float x) h).1 ≠ .ok (some r, source)) ∧
        (t.setNumber name x h).1.table = t) := by
  unfold Table.setNumber
  generalize Store.setOne t.source name (.float x) h = out
  rcases out with ⟨fault | ⟨_ | r, source⟩, h'⟩
  · rcases fault with f | _
    · cases f <;> exact ⟨rfl, .inr ⟨by simp, rfl⟩⟩
    all_goals exact ⟨rfl, .inr ⟨by simp, rfl⟩⟩
  · exact ⟨rfl, .inr ⟨by simp, rfl⟩⟩
  · simp only
    cases hreload : Table.reload { t with source := source } with
    | mk result rest =>
      cases result with
      | error fault => exact ⟨rfl, .inl ⟨r, source, rfl, by rw [hreload], by rw [hreload]; rfl⟩⟩
      | ok _ => exact ⟨rfl, .inl ⟨r, source, rfl, by rw [hreload], by rw [hreload]; rfl⟩⟩

/-- Setting a number keeps the settings and the lock. -/
theorem setNumber_table (t : Table) (name : Text) (x : Binary64) (h : Host) :
    (t.setNumber name x h).1.table.settings = t.settings ∧
      (t.setNumber name x h).1.table.source.lock? = t.source.lock? := by
  rcases (setNumber_cases t name x h).2 with ⟨r, source, hset, htable, -⟩ | ⟨-, htable⟩
  · rw [htable, reload_settings, reload_source]
    exact ⟨rfl, Store.setOne_lock? hset⟩
  · rw [htable]
    exact ⟨rfl, rfl⟩

theorem writes_setNumber (t : Table) (name : Text) (x : Binary64) (h : Host) :
    h.disk.Writes t.source.file? (t.setNumber name x h).2.disk := by
  rw [(setNumber_cases t name x h).1]
  exact Store.writes_setOne t.source name (.float x) h

theorem column_of_index? {row column : ℤ} {r c : ℕ} (h : t.index? row column = some (r, c)) :
    column = c := by
  unfold Table.index? at h
  split at h
  · rename_i hbounds
    obtain ⟨-, rfl⟩ := Prod.mk.inj (Option.some.inj h)
    omega
  · simp at h

theorem row_of_index? {row column : ℤ} {r c : ℕ} (h : t.index? row column = some (r, c)) :
    row = r := by
  unfold Table.index? at h
  split at h
  · rename_i hbounds
    obtain ⟨rfl, -⟩ := Prod.mk.inj (Option.some.inj h)
    omega
  · simp at h

/-- **Editing a cell** sets a number in the column of values, or changes at most one comment. -/
theorem set_cases (t : Table) (row column : ℤ) (v : Scalar) (role : CellRole) (h : Host) :
    (role = .edit ∧ column = 1 ∧ ∃ name x, t.set row column v role h = t.setNumber name x h) ∨
    (t.set row column v role h).2.disk = h.disk ∧
      ((t.set row column v role h).1.table = t ∨ ∃ cfg, EditsComment t.settings cfg ∧
        (t.set row column v role h).1.table = { t with settings := cfg }) := by
  unfold Table.set
  split
  · rename_i r c hindex
    have hcolumn := column_of_index? hindex
    split
    · exact .inr ⟨rfl, .inl rfl⟩
    · rename_i name _ _
      split
      · -- a value
        rename_i hc
        unfold Table.setValue
        split
        · exact .inr ⟨rfl, .inl rfl⟩
        split
        · exact .inr ⟨rfl, .inl rfl⟩
        split
        · rename_i x _
          exact .inl ⟨rfl, by omega, name, x, rfl⟩
        · exact .inr ⟨rfl, .inl rfl⟩
      split
      · -- a comment
        unfold Table.setComment
        split
        · exact .inr ⟨rfl, .inl rfl⟩
        split
        · exact .inr ⟨rfl, .inl rfl⟩
        · rename_i cfg hcfg
          exact .inr ⟨rfl, .inr ⟨cfg, ⟨_, _, hcfg⟩, rfl⟩⟩
      · exact .inr ⟨rfl, .inl rfl⟩
  · exact .inr ⟨rfl, .inl rfl⟩

/-- An edit changes at most one comment, keeps the lock, and writes no file but the one held open. -/
theorem set_frame (t : Table) (row column : ℤ) (v : Scalar) (role : CellRole) (h : Host) :
    ((t.set row column v role h).1.table.settings = t.settings ∨
      EditsComment t.settings (t.set row column v role h).1.table.settings) ∧
    (t.set row column v role h).1.table.source.lock? = t.source.lock? ∧
    h.disk.Writes t.source.file? (t.set row column v role h).2.disk := by
  rcases set_cases t row column v role h with ⟨-, -, name, x, hset⟩ |
    ⟨hdisk, htable | ⟨cfg, hcfg, htable⟩⟩
  · obtain ⟨hsettings, hlock⟩ := setNumber_table t name x h
    rw [hset]
    exact ⟨.inl hsettings, hlock, writes_setNumber t name x h⟩
  · rw [htable]
    exact ⟨.inl rfl, rfl, .inl hdisk⟩
  · rw [htable]
    exact ⟨.inr hcfg, rfl, .inl hdisk⟩

/-- An edit works under the same conditions to its end. -/
theorem conditions_setNumber (t : Table) (name : Text) (x : Binary64) (h : Host) :
    (t.setNumber name x h).2.conditions = h.conditions := by
  have hset := Store.conditions_setOne t.source name (.float x) h
  unfold Table.setNumber
  generalize Store.setOne t.source name (.float x) h = out at hset ⊢
  rcases out with ⟨fault | ⟨_ | r, source⟩, h'⟩
  · rcases fault with f | _
    · cases f <;> exact hset
    all_goals exact hset
  · exact hset
  · simp only
    split <;> exact hset

theorem conditions_set (t : Table) (row column : ℤ) (v : Scalar) (role : CellRole) (h : Host) :
    (t.set row column v role h).2.conditions = h.conditions := by
  unfold Table.set
  split
  · split
    · rfl
    split
    · -- a value
      unfold Table.setValue
      split
      · rfl
      split
      · rfl
      split
      · exact conditions_setNumber t _ _ h
      · rfl
    split <;> rfl
  · rfl

theorem conditions_edit (d : Desktop) (row column : ℤ) (v : Scalar) (role : CellRole) :
    (d.edit row column v role).2.host.conditions = d.host.conditions := by
  unfold edit
  cases d.window.table with
  | none => rfl
  | some t => exact conditions_set t row column v role d.host

theorem window_edit (d : Desktop) (row column : ℤ) (v : Scalar) (role : CellRole) :
    (d.edit row column v role).2.window.current = d.window.current ∧
      (d.edit row column v role).2.window.held = d.window.held := by
  unfold edit
  cases d.window.table <;> exact ⟨rfl, rfl⟩

/-- An edit keeps the file under the table. -/
theorem file?_edit (d : Desktop) (row column : ℤ) (v : Scalar) (role : CellRole) :
    (d.edit row column v role).2.file? = d.file? := by
  unfold edit
  cases ht : d.window.table with
  | none => rfl
  | some t =>
    have hlock := (set_frame t row column v role d.host).2.1
    simp only [file?, ht, Option.bind_some, SlotSource.file?_eq, hlock]

/-- An edit writes no file but the one under the table. -/
theorem writes_edit (d : Desktop) (row column : ℤ) (v : Scalar) (role : CellRole) :
    d.host.disk.Writes d.file? (d.edit row column v role).2.host.disk := by
  unfold edit
  cases ht : d.window.table with
  | none => exact .inl rfl
  | some t =>
    have hwrites := (set_frame t row column v role d.host).2.2
    rw [show d.file? = t.source.file? by simp [file?, ht]]
    exact hwrites

end EquationSheet.Desktop
