import EquationSheet.Proofs.Desktops

/-!
# The moves of a window

All that a user does short of editing is made of a few moves: settings are saved, the sheet held is
given up, a sheet is opened, a sheet that is open is shown. What every move preserves is preserved
by every action, whatever way it takes and wherever it ends.

* `Move`: the moves, each with what has to hold where it is made.
* `moves_closeCurrent`, `moves_load`, `moves_act`: **the actions are made of moves**.
* `Moves.preserves`, `preserves_act`: so an invariant of the moves, and of edits, is one of the
  actions.
* `placed_move`, `placed_edit`: **what a window has open lies at the path of the sheet opened last**.
-/

namespace EquationSheet.Desktop

/-- A move of a window. -/
inductive Move : Desktop → Desktop → Prop
  /-- something is reported or logged -/
  | reports {d : Desktop} {w : Window} {h : Host} (current : w.current = d.window.current)
      (held : w.held = d.window.held) (table : w.table = d.window.table)
      (disk : h.disk = d.host.disk) (conditions : h.conditions = d.host.conditions) : Move d ⟨w, h⟩
  /-- the settings shown are written beside the sheet opened last -/
  | saves {d : Desktop} {p sidecar : Path} {t : Table} (current : d.window.current = some p)
      (table : d.window.table = some t) (beside : p.sidecar? = some sidecar) :
      Move d { d with host := (Settings.save sidecar (.obj t.settings) d.host).2 }
  /-- the sheet held is given up -/
  | closes (d : Desktop) : Move d d.closeSheet.2
  /-- a sheet cannot be opened -/
  | fails {d : Desktop} {p : Path} {fault : Fault} {h : Host} (held : d.window.held = .nothing)
      (loads : SheetFile.load p d.host = (.error fault, h)) : Move d { d with host := h }
  /-- a sheet is opened in place of none -/
  | opens {d : Desktop} {p : Path} {sheet : SheetFile} {h : Host} (held : d.window.held = .nothing)
      (plain : ['.', '.'] ∉ p.parts) (loads : SheetFile.load p d.host = (.ok sheet, h)) :
      Move d (d.hold p sheet h)
  /-- the sheet just opened gets its table -/
  | shows {d : Desktop} {sheet : SheetFile} {cfg : Members} {t : Table}
      (held : d.window.held = .unshown sheet)
      (creates : Table.create (.file sheet) cfg sheet.readonly = .ok t) :
      Move d { d with window := { d.window with table := some t, held := .shown } }

/-- Several moves, one after the other. -/
abbrev Moves : Desktop → Desktop → Prop := Relation.ReflTransGen Move

variable {d d' : Desktop} {p : Path} {sheet : SheetFile} {h : Host}

/-- **What every move preserves** is preserved by several. -/
theorem Moves.preserves {P : Desktop → Prop} (hmove : ∀ d d', Move d d' → P d → P d')
    (h : Moves d d') (hd : P d) : P d' := by
  induction h with
  | refl => exact hd
  | tail _ hlast ih => exact hmove _ _ hlast ih

theorem moves_report (d : Desktop) (notices : List Notice) : Moves d (d.report notices) :=
  .single (.reports rfl rfl rfl rfl rfl)

theorem moves_applyFilter (d : Desktop) (filter : Text) : Moves d (d.applyFilter filter) := by
  unfold applyFilter
  split
  · exact .refl
  · exact moves_report d _

theorem moves_setFilter (d : Desktop) (filter : Text) : Moves d (d.setFilter filter) := by
  unfold setFilter
  split
  · exact .refl
  · have hfilter : Move d { d with window := { d.window with filter := filter } } :=
      .reports rfl rfl rfl rfl rfl
    exact .head hfilter (moves_applyFilter _ filter)

/-! ### Closing -/

theorem moves_saveSettings (d : Desktop) : Moves d d.saveSettings.2 := by
  unfold saveSettings
  split
  · rename_i p t hcurrent htable
    split
    · exact .refl
    · rename_i sidecar hsidecar
      have hsaves := Move.saves hcurrent htable hsidecar
      simp only
      -- a message follows, unless the fault is none of files
      generalize Settings.save sidecar (.obj t.settings) d.host = out at hsaves ⊢
      rcases out with ⟨fault | _, h⟩
      · cases fault with
        | file f => exact .tail (.single hsaves) (.reports rfl rfl rfl rfl rfl)
        | _ => exact .single hsaves
      · exact .tail (.single hsaves) (.reports rfl rfl rfl rfl rfl)
  · exact .refl

theorem moves_closeCurrent (d : Desktop) : Moves d d.closeCurrent.2 := by
  have hsave := moves_saveSettings d
  rcases closeCurrent_cases d with ⟨-, hclose⟩ | ⟨fault, -, -, hclose⟩ | ⟨-, -, hclose⟩
  · rw [hclose]
  · rw [hclose]
    exact hsave
  · rw [hclose]
    exact .tail hsave (.closes _)

theorem held_letGo {outcome : Except Fault Unit} (h : (d.letGo outcome).1 = .ok ()) :
    (d.letGo outcome).2.window.held = .nothing := by
  cases outcome with
  | ok _ => rfl
  | error fault => simp [letGo] at h

/-- What is given up is not held any more, unless that went wrong. -/
theorem held_closeSheet (hclose : d.closeSheet.1 = .ok ()) :
    d.closeSheet.2.window.held = .nothing := by
  rcases closeSheet_cases d with ⟨_, -, hout⟩ | ⟨_, _, -, -, -, hout⟩ | ⟨-, -, hout⟩
  all_goals
    rw [hout] at hclose ⊢
    exact held_letGo hclose

/-- Where closing comes to its end, nothing is held any more. -/
theorem held_closeCurrent (hclose : d.closeCurrent = (.ok (), d')) : d'.window.held = .nothing := by
  rcases closeCurrent_cases d with ⟨hheld, hsame⟩ | ⟨fault, -, -, hfault⟩ | ⟨-, -, hends⟩
  · obtain ⟨-, rfl⟩ := Prod.mk.inj (hsame.symm.trans hclose)
    exact hheld
  · simp [hfault] at hclose
  · have hout := hends.symm.trans hclose
    have hgone := held_closeSheet (d := d.saveSettings.2) (by rw [hout])
    rwa [hout] at hgone

/-! ### Loading -/

theorem moves_showSheet (hheld : d.window.held = .unshown sheet) (p : Path) (names : List Text)
    (now : Text) : Moves d (d.showSheet p sheet names now).2 := by
  unfold showSheet
  cases p.sidecar? with
  | none => exact .refl
  | some sidecar =>
    have hdisk := Settings.load_disk sidecar d.host
    have hconditions := Settings.load_conditions sidecar d.host
    simp only
    generalize Settings.load sidecar d.host = out at hdisk hconditions ⊢
    rcases out with ⟨fault | settings, h⟩
    · exact .single (.reports rfl rfl rfl hdisk hconditions)
    simp only
    have hread : Move d { d with host := h } := .reports rfl rfl rfl hdisk hconditions
    generalize Settings.reconcile names now settings = out
    rcases out with ⟨fault | _, cfg⟩
    · exact .single hread
    simp only
    cases hcreate : Table.create (.file sheet) cfg sheet.readonly with
    | error fault => exact .single hread
    | ok t =>
      have hshows : Move { d with host := h } _ := .shows hheld hcreate
      exact .head hread (.head hshows ((moves_applyFilter _ _).trans (moves_report _ _)))

theorem moves_openSheet (hheld : d.window.held = .nothing) (hplain : ['.', '.'] ∉ p.parts)
    (now : Text) : Moves d (d.openSheet p now).2 := by
  unfold openSheet
  cases hload : SheetFile.load p d.host with
  | mk result h =>
    cases result with
    | error fault =>
      have hfails := Move.fails hheld hload
      cases fault with
      | file f => exact .tail (.single hfails) (.reports rfl rfl rfl rfl rfl)
      | _ => exact .single hfails
    | ok sheet =>
      have hopens : Move d (d.hold p sheet h) := .opens hheld hplain hload
      simp only
      cases Store.names sheet.slots with
      | error e => exact .head hopens ((moves_report _ _).trans (moves_closeCurrent _))
      | ok names => exact .head hopens (moves_showSheet rfl p names now)

theorem moves_load (d : Desktop) (p : Path) (now : Text) : Moves d (d.load p now).2 := by
  have hclose := moves_closeCurrent d
  unfold load
  cases hout : d.closeCurrent with
  | mk result d₁ =>
    rw [hout] at hclose
    cases result with
    | error fault => exact hclose
    | ok _ =>
      simp only
      split
      · exact hclose
      have hplain : ['.', '.'] ∉ (d₁.host.resolve p).parts := Path.not_mem_collapse _
      split
      · exact hclose
      · exact hclose.trans (moves_openSheet (held_closeCurrent hout) hplain now)
      · exact hclose.trans (moves_report d₁ _)

/-- **Every action but an edit is made of moves.** -/
theorem moves_act (d : Desktop) (now : Text) {action : UserAction}
    (hedit : ∀ row column v role, action ≠ .edit row column v role) :
    Moves d (d.act now action).2 := by
  cases action with
  | load p => exact moves_load d p now
  | filter t => exact moves_setFilter d t
  | edit row column v role => exact absurd rfl (hedit row column v role)
  | save => exact moves_saveSettings d
  | close => exact moves_closeCurrent d

/-- **What every move and every edit preserves**, every action preserves. -/
theorem preserves_act {P : Desktop → Prop} (hmove : ∀ d d', Move d d' → P d → P d')
    (hedit : ∀ d row column v role, P d → P (d.edit row column v role).2) (hd : P d) (now : Text)
    (action : UserAction) : P (d.act now action).2 := by
  by_cases h : ∃ row column v role, action = .edit row column v role
  · obtain ⟨row, column, v, role, rfl⟩ := h
    exact hedit d row column v role hd
  · have hmoves := moves_act d now fun row column v role heq => h ⟨row, column, v, role, heq⟩
    exact hmoves.preserves hmove hd

/-- **The conditions stay as they are.** -/
theorem conditions_move (hmove : Move d d') : d'.host.conditions = d.host.conditions := by
  cases hmove with
  | reports current held table disk conditions => exact conditions
  | saves current table beside => exact (Settings.save_frame _ _ d.host).1
  | closes => exact conditions_closeSheet d
  | @fails p fault h held loads =>
    have hsame := SheetFile.conditions_load p d.host
    rwa [loads] at hsame
  | @opens p sheet h held plain loads =>
    have hsame := SheetFile.conditions_load p d.host
    rwa [loads] at hsame
  | shows held creates => rfl

theorem conditions_act (d : Desktop) (now : Text) (action : UserAction) :
    (d.act now action).2.host.conditions = d.host.conditions :=
  preserves_act (P := fun d' => d'.host.conditions = d.host.conditions)
    (fun _ _ hmove hsame => (conditions_move hmove).trans hsame)
    (fun d' row column v role hsame => (conditions_edit d' row column v role).trans hsame) rfl now
    action

/-! ### What is held -/

/-- What a window has open lies at the path of the sheet opened last, which has no double dots. The
file under its table is open only while that sheet is shown. -/
structure Placed (d : Desktop) : Prop where
  plain : d.Plain
  held : ∀ l f, d.heldLock = some l → l.file = some f →
    ∃ p, d.window.current = some p ∧ f.key = p.parts
  closed : d.window.held ≠ .shown → d.file? = none

theorem placed_first (h : Host) : Placed { host := h } :=
  ⟨fun _ hp => absurd hp (by simp), fun _ _ hl => absurd hl (by simp [heldLock]), fun _ => rfl⟩

/-- The lock held after a sheet was given up, if that went wrong, holds the same file or none. -/
theorem file_of_closeSheet {l' : FileLock} {f : OpenFile} (hl' : d.closeSheet.2.heldLock = some l')
    (hf : l'.file = some f) : ∃ l, d.heldLock = some l ∧ l.file = some f := by
  obtain ⟨l, hl, -, rfl, -⟩ := exists_of_heldLock_closeSheet hl'
  refine ⟨l, hl, ?_⟩
  rcases l.tryRelease_file d.host with hfile | hfile
  · rw [← hfile, hf]
  · simp [hfile] at hf

/-- A table writes through the lock that was held before. -/
theorem heldLock_shows {cfg : Members} {t : Table} (hheld : d.window.held = .unshown sheet)
    (hcreate : Table.create (.file sheet) cfg sheet.readonly = .ok t) :
    Desktop.heldLock { d with window := { d.window with table := some t, held := .shown } } =
      d.heldLock := by
  have hsource : t.source = .file sheet := (create_eq hcreate).1
  unfold heldLock
  rw [hheld]
  simp only [Option.bind_some, hsource, SlotSource.lock?]

/-- The file under the table, while its sheet is shown. -/
theorem exists_of_file? {f : OpenFile} (hd : d.Placed) (hf : d.file? = some f) :
    d.window.held = .shown ∧ ∃ l, d.heldLock = some l ∧ l.file = some f := by
  have hshown : d.window.held = .shown := by
    by_contra hother
    rw [hd.closed hother] at hf
    exact absurd hf (by simp)
  refine ⟨hshown, ?_⟩
  obtain ⟨t, ht, hsource⟩ := Option.bind_eq_some_iff.1 hf
  rw [SlotSource.file?_eq] at hsource
  obtain ⟨l, hl, hfile⟩ := Option.bind_eq_some_iff.1 hsource
  refine ⟨l, ?_, hfile⟩
  unfold heldLock
  rw [hshown, ht]
  exact hl

/-- The file under the table is that of the sheet opened last. -/
theorem current_of_file? {f : OpenFile} (hd : d.Placed) (hf : d.file? = some f) :
    ∃ p, d.window.current = some p ∧ f.key = p.parts := by
  obtain ⟨-, l, hl, hfile⟩ := exists_of_file? hd hf
  exact hd.held l f hl hfile

/-- A sheet that was shown and is given up is not open under the table any more. -/
theorem file?_closeSheet (hd : d.Placed) (hother : d.closeSheet.2.window.held ≠ .shown) :
    d.closeSheet.2.file? = none := by
  rcases closeSheet_cases d with ⟨sheet, hheld, hclose⟩ | ⟨t, sheet, hheld, ht, hsource, hclose⟩ |
    ⟨hnone, hunshown, hclose⟩
  · have hfile : d.file? = none := hd.closed (by rw [hheld]; simp)
    rw [hclose]
    rcases (leaves_letGo (d.closeUnshown sheet) (sheet.tryClose d.host).1).file with hsame | hnone
    · exact hsame.trans hfile
    · exact hnone
  · rw [hclose] at hother ⊢
    cases hout : (sheet.tryClose d.host).1 with
    | error fault =>
      rw [hout] at hother
      exact absurd hheld hother
    | ok u => exact FileLock.tryRelease_file_of_ok hout
  · rw [hclose]
    cases hheld : d.window.held with
    | nothing => exact hd.closed (by rw [hheld]; simp)
    | unshown sheet => exact absurd hheld (hunshown sheet)
    | shown =>
      -- the table of a sheet that is held has slots in memory, or there is none
      unfold heldLock at hnone
      rw [hheld] at hnone
      change d.file? = none
      cases ht : d.window.table with
      | none => simp [file?, ht]
      | some t =>
        rw [ht, Option.bind_some] at hnone
        simp only [file?, ht, Option.bind_some, SlotSource.file?_eq, hnone, Option.bind_none]

/-- **Every move keeps what is open at the path of the sheet opened last.** -/
theorem placed_move (hmove : Move d d') (hd : d.Placed) : d'.Placed := by
  cases hmove with
  | reports current held table disk conditions =>
    refine ⟨fun p hp => hd.plain p (current ▸ hp), fun l f hl => ?_, fun hother => ?_⟩
    · rw [heldLock_congr held table] at hl
      rw [show (Desktop.mk _ _).window.current = d.window.current from current]
      exact hd.held l f hl
    · have hnone := hd.closed (held ▸ hother)
      unfold file? at hnone ⊢
      rwa [show (Desktop.mk _ _).window.table = d.window.table from table]
  | saves current table beside => exact ⟨hd.plain, hd.held, hd.closed⟩
  | closes =>
    refine ⟨(leaves_closeSheet d).plain hd.plain, fun l' f hl' hf => ?_, file?_closeSheet hd⟩
    obtain ⟨l, hl, hf⟩ := file_of_closeSheet hl' hf
    rw [(leaves_closeSheet d).current]
    exact hd.held l f hl hf
  | fails held loads => exact ⟨hd.plain, hd.held, hd.closed⟩
  | opens held plain loads =>
    rename_i p sheet h
    refine ⟨fun q hq => ?_, fun l f hl hf => ?_, fun _ => hd.closed (by rw [held]; simp)⟩
    · obtain rfl : p = q := Option.some.inj hq
      exact plain
    · obtain rfl : sheet.lock = l := Option.some.inj hl
      obtain ⟨f', hopened⟩ := SheetFile.opened_of_load loads
      obtain rfl : f' = f := Option.some.inj (hopened.file.symm.trans hf)
      exact ⟨p, rfl, Disk.locateFile_eq plain hopened.located⟩
  | shows held creates =>
    refine ⟨hd.plain, fun l f hl => hd.held l f ?_, fun hother => absurd rfl hother⟩
    rwa [heldLock_shows held creates] at hl

/-! ### Editing -/

theorem heldLock_edit (d : Desktop) (row column : ℤ) (v : Scalar) (role : CellRole) :
    (d.edit row column v role).2.heldLock = d.heldLock := by
  unfold edit
  cases ht : d.window.table with
  | none => rfl
  | some t =>
    have hlock := (set_frame t row column v role d.host).2.1
    unfold heldLock
    simp only [ht]
    split
    · rfl
    · rfl
    · exact hlock

/-- **So does every edit.** -/
theorem placed_edit (hd : d.Placed) (row column : ℤ) (v : Scalar) (role : CellRole) :
    (d.edit row column v role).2.Placed := by
  obtain ⟨hcurrent, hheld⟩ := window_edit d row column v role
  refine ⟨fun p hp => hd.plain p (hcurrent ▸ hp), fun l f hl => ?_, fun hother => ?_⟩
  · rw [heldLock_edit] at hl
    rw [hcurrent]
    exact hd.held l f hl
  · rw [file?_edit]
    exact hd.closed (hheld ▸ hother)

theorem placed_act (hd : d.Placed) (now : Text) (action : UserAction) :
    (d.act now action).2.Placed :=
  preserves_act (fun _ _ => placed_move)
    (fun _ row column v role hd => placed_edit hd row column v role) hd now action

end EquationSheet.Desktop
