import EquationSheet.Proofs.Comments
import EquationSheet.Proofs.Provenance

/-!
# What a window leaves beside its sheets

Closing saves the settings shown, but only while a sheet is held. Loading closes first, so what a
sheet is shown under has just been read from beside it.

* `Desktop.CanSave`: settings can be written beside the sheet opened last.
* `content?_saveSettings_of_canSave`, `content?_closeCurrent_of_held`: then saving writes them, and
  so does closing a sheet that is held.
* `exists_text_of_opening`: the slots of an opened sheet are those of its text.
* `neat_of_settingsFor`: **a sheet is shown under the comments kept beside it**.
* `settingsFor_of_canSave`: a sheet whose names can be read is shown.
-/

namespace EquationSheet

namespace Desktop

variable {d : Desktop} {p q s : Path} {sheet : SheetFile} {h : Host} {k : Key} {cfg : Members}
  {now : Text} {names : List Text}

/-! ### Saving -/

/-- The place beside the sheet opened last can be written, and the settings shown are written there
whole. -/
def CanSave (d : Desktop) : Prop :=
  ∀ p s, d.window.current = some p → p.sidecar? = some s →
    (Settings.save s (.obj []) d.host).1 = .ok () ∧
      ∀ cfg, d.settings? = some cfg → (Settings.save s (.obj cfg) d.host).1 = .ok ()

theorem canSave_iff : d.CanSave ↔ ∀ s ∈ d.window.current.bind Path.sidecar?,
    (Settings.save s (.obj []) d.host).1 = .ok () ∧
      ∀ cfg ∈ d.settings?, (Settings.save s (.obj cfg) d.host).1 = .ok () := by
  constructor
  · intro hd s hs
    obtain ⟨p, hp, hsidecar⟩ := Option.bind_eq_some_iff.1 hs
    exact hd p s hp hsidecar
  · intro hd p s hp hsidecar
    exact hd s (Option.bind_eq_some_iff.2 ⟨p, hp, hsidecar⟩)

instance : Decidable d.CanSave := decidable_of_iff' _ canSave_iff

/-- What can be saved is written whole. -/
theorem written_of_canSave (hd : d.CanSave) (hhome : d.Homed) (hpending : d.pending = some (p, cfg)) :
    Settings.written d.host.conditions (.obj cfg) = (.ok (), (Json.obj cfg).indented) := by
  obtain ⟨hcurrent, hcfg⟩ := pending_eq_some.1 hpending
  obtain ⟨s, hs⟩ := Path.exists_sidecar (hhome p hcurrent).named
  exact Settings.written_of_saved ((hd p s hcurrent hs).2 cfg hcfg)

/-- **Where settings can be written** saving writes those shown. -/
theorem content?_saveSettings_of_canSave (hd : d.CanSave) (hhome : d.Homed) (hplain : d.Plain)
    (hpending : d.pending = some (p, cfg)) :
    d.saveSettings.2.host.disk.content? (sidecarKey p.parts) =
      some (.text (Json.obj cfg).indented) := by
  obtain ⟨hcurrent, hcfg⟩ := pending_eq_some.1 hpending
  obtain ⟨t, ht, rfl⟩ := Option.map_eq_some_iff.1 hcfg
  obtain ⟨s, hs⟩ := Path.exists_sidecar (hhome p hcurrent).named
  have hkey := sidecar?_parts hs
  have hdots : ['.', '.'] ∉ s.parts := by rw [hkey]; exact not_mem_sidecarKey (hplain p hcurrent)
  have hne : s.parts ≠ [] := by rw [hkey]; simp [sidecarKey]
  have hok := (hd p s hcurrent hs).2 t.settings hcfg
  have hsaved := Settings.content?_of_saved hdots hne hok
  rw [hkey] at hsaved
  unfold saveSettings
  simp only [hcurrent, ht, hs]
  generalize Settings.save s (.obj t.settings) d.host = out at hok hsaved ⊢
  rcases out with ⟨fault | _, h⟩
  · simp at hok
  · exact hsaved

theorem held_saveSettings (d : Desktop) : d.saveSettings.2.window.held = d.window.held :=
  (reports_saveSettings d).held

/-- Saving does not reach the settings of a sheet that is not the one opened last. -/
theorem content?_saveSettings_of_ne (hd : d.Sound) (hk : IsSheetKey k)
    (hother : ∀ p, d.window.current = some p → p.parts ≠ k) :
    d.saveSettings.2.host.disk.content? (sidecarKey k) = d.host.disk.content? (sidecarKey k) := by
  rcases content?_saveSettings hd.plain (sidecarKey k) with hsame | ⟨p, cfg, hpending, hkey, -⟩
  · exact hsame
  · obtain ⟨hcurrent, -⟩ := pending_eq_some.1 hpending
    exact absurd (sidecarKey_injective hk (hd p hcurrent).1 hkey).symm (hother p hcurrent)

/-- Nothing is written when a sheet is given up to which nothing is left to write. -/
theorem due_of_settled (hd : d.Settled) : d.due = none := by
  cases hl : d.heldLock with
  | none => rw [due, hl, Option.bind_none]
  | some l => rw [due, hl, Option.bind_some, FileLock.due_of_settled (hd l hl)]

/-- Closing a sheet that is held saves its settings and changes no other file, if nothing is left to
write to it. -/
theorem content?_closeCurrent_of_held (hsettled : d.Settled) (hheld : d.window.held ≠ .nothing)
    (k : Key) :
    d.closeCurrent.2.host.disk.content? k = d.saveSettings.2.host.disk.content? k := by
  rcases closeCurrent_cases d with ⟨hnothing, -⟩ | ⟨fault, -, -, hclose⟩ | ⟨-, -, hclose⟩
  · exact absurd hnothing hheld
  · rw [hclose]
  · rw [hclose]
    refine (content?_closeSheet d.saveSettings.2 k).resolve_right ?_
    rintro ⟨f, t, _, hdue, -⟩
    rw [due_saveSettings, due_of_settled hsettled] at hdue
    simp at hdue

theorem closeCurrent_of_nothing (hheld : d.window.held = .nothing) : d.closeCurrent = (.ok (), d) := by
  unfold closeCurrent
  rw [hheld]

/-! ### Opening -/

/-- **An opened sheet** is at home, and its slots are those of its text. -/
theorem exists_text_of_opening (ho : d.opening q = some (p, sheet, h)) : h.disk.Home p ∧
    ∃ t, h.disk.content? p.parts = some (.text t) ∧ sheet.slots = Sheet.split t := by
  obtain ⟨d₁, -, -, rfl, -, hload⟩ := exists_of_opening ho
  have hdots : ['.', '.'] ∉ (d₁.host.resolve q).parts := Path.not_mem_collapse _
  rcases SheetFile.load_cases (d₁.host.resolve q) d₁.host with ⟨_, _, hload', -⟩ |
    ⟨s, f, t, h'', hload', hopened, htext, hslots⟩
  · rw [hload] at hload'
    simp at hload'
  · rw [hload, Prod.mk.injEq, Except.ok.injEq] at hload'
    obtain ⟨rfl, rfl⟩ := hload'
    have hkey := Disk.locateFile_eq hdots hopened.located
    refine ⟨FileLock.home_of_opened hopened hdots, t, ?_, hslots⟩
    rw [Disk.content?_of_nodes hopened.keeps.nodes, ← hkey, htext]

/-- A load that opens nothing holds what closing left. -/
theorem held_of_opening_none (ho : d.opening q = none) (now : Text) :
    (d.load q now).2.window.held = d.closeCurrent.2.window.held :=
  (reports_of_opening_none ho now).1.held

/-! ### Showing -/

/-- **A sheet is shown under the comments kept beside it.** -/
theorem neat_of_settingsFor (hp : h.disk.Home p) (hlegible : h.Legible p.parts)
    (hlevels : 2 ≤ h.conditions.limits.read) (hsome : settingsFor p sheet now h = some cfg) :
    Settings.Neat h.conditions.limits.read cfg ∧
      ∀ names, Store.names sheet.slots = .ok names → ∀ name ∈ names,
        Settings.comment? cfg name = h.keptComment? p.parts name := by
  obtain ⟨s, hs⟩ := Path.exists_sidecar hp.named
  obtain ⟨names, hn⟩ : ∃ names, Store.names sheet.slots = .ok names := by
    cases hn : Store.names sheet.slots with
    | ok names => exact ⟨names, rfl⟩
    | error e => simp [settingsFor, hn] at hsome
  have hfind : ∃ there, h.disk.pathExists s = .ok there := by
    cases hexists : h.disk.pathExists s with
    | ok there => exact ⟨there, rfl⟩
    | error fault =>
      have hload : (Settings.load s h).1 = .error (.file (.disk fault)) := by
        unfold Settings.load
        rw [hexists]
      rw [settingsFor_of_load_error hs hload] at hsome
      simp at hsome
  obtain ⟨ms, hload, hneat, hkept⟩ := Settings.load_of_legible hp hs hfind hlegible hlevels
  rw [settingsFor_of_load hn hs hload] at hsome
  split at hsome
  · rename_i cfg' hcfg
    obtain rfl := Option.some.inj hsome
    refine ⟨hneat.reconcile hlevels hcfg, fun names' hn' name hname => ?_⟩
    obtain rfl : names = names' := Except.ok.inj (hn.symm.trans hn')
    rw [Settings.comment?_reconcile hneat.comments hcfg hname, hkept]
  · simp at hsome

/-- A sheet whose names can be read gets settings, if any can be written beside it. -/
theorem settingsFor_of_canSave (hp : h.disk.Home p) (hlegible : h.Legible p.parts)
    (hlevels : 2 ≤ h.conditions.limits.read) (hn : Store.names sheet.slots = .ok names)
    (hs : p.sidecar? = some s)
    (hsaved : ∃ j, (Settings.save s j h).1 = .ok ()) (now : Text) :
    ∃ cfg, settingsFor p sheet now h = some cfg := by
  obtain ⟨j, hsaved⟩ := hsaved
  obtain ⟨ms, hload, hneat, -⟩ :=
    Settings.load_of_legible hp hs (Settings.pathExists_of_saved hsaved) hlegible hlevels
  obtain ⟨cfg, hcfg, -⟩ := Settings.exists_reconcile hneat.comments names now
  exact ⟨cfg, by rw [settingsFor_of_load hn hs hload, hcfg]⟩

/-- A sheet whose names can be read is looked at and no file is changed. -/
theorem disk_showing_of_names (hn : Store.names sheet.slots = .ok names) :
    (d.showing p sheet now).2.host.disk = d.host.disk := by
  unfold showing showSheet
  rw [hn]
  cases p.sidecar? with
  | none => rfl
  | some s =>
    have hdisk := Settings.load_disk s d.host
    simp only
    generalize Settings.load s d.host = out at hdisk ⊢
    rcases out with ⟨fault | ms, h⟩
    · exact hdisk
    simp only at hdisk ⊢
    generalize Settings.reconcile names now ms = out
    rcases out with ⟨fault | _, cfg⟩
    · exact hdisk
    simp only
    split
    · exact hdisk
    · simp only [report, host_applyFilter, hdisk]

/-- A sheet whose names cannot be read is closed again. -/
theorem held_showing_of_unreadable {e : EquationError} (hd : d.Homed) (hshallow : d.Shallow)
    (hsettled : d.Settled) (hn : Store.names sheet.slots = .error e) :
    (d.showing p sheet now).2.window.held = .nothing := by
  obtain ⟨d', hclose⟩ := closeCurrent_of_homed
    (d := d.alert ("Failed to read equations: " ++ e.message)) hd hshallow hsettled
  unfold showing
  rw [hn]
  simp only [hclose]
  exact held_closeCurrent hclose

/-! ### Editing -/

/-- An edit of anything but a value leaves the disk, and the names. -/
theorem edit_frame {row column : ℤ} {v : Scalar} {role : CellRole} (d : Desktop)
    (hno : ¬(role = .edit ∧ column = 1)) :
    (d.edit row column v role).2.host.disk = d.host.disk ∧
      (d.edit row column v role).2.names? = d.names? := by
  unfold edit
  cases ht : d.window.table with
  | none => exact ⟨rfl, by simp [names?, ht]⟩
  | some t =>
    rcases set_cases t row column v role d.host with ⟨hrole, hcolumn, -⟩ |
      ⟨hdisk, htable | ⟨cfg, -, htable⟩⟩
    · exact absurd ⟨hrole, hcolumn⟩ hno
    · exact ⟨hdisk, by simp [names?, ht, htable]⟩
    · exact ⟨hdisk, by simp [names?, ht, htable, Table.names]⟩

end Desktop

end EquationSheet
