import EquationSheet.Proofs.Saving

/-!
# Runs that change only settings

In a run over text files without edits of values, and with nothing changing the files from outside,
a window writes settings only. As long as they can be written and read again, the window holds what it
shows or nothing, and only the settings of the sheet shown get beside it.

* `commented`: the comment that an event sets.
* `Orderly`: the runs.
* `brings_of_shown`: **a sheet that is shown** is held, under the comments kept beside it.
* `Orderly.neat`: what is shown and what is kept can be written and read again.
* `Orderly.sourced`: what is held is what is shown, and its settings go beside it.
* `Orderly.keptComment?_step`, `Orderly.keptComment?_of_held`: what is kept beside a sheet changes
  only to what is shown of it, and closing it writes that down.
-/

namespace EquationSheet

open Desktop

/-- **An edit of anything but a value** is refused and leaves the table, or sets the comment of the
row. -/
theorem Table.set_of_no_value (t : Table) (row : ℤ) {column : ℤ} (v : Scalar) {role : CellRole}
    (h : Host) (hno : ¬(role = .edit ∧ column = 1)) :
    (t.set row column v role h).1.table = t ∧ (t.set row column v role h).1.outcome ≠ .ok true ∨
    column = 3 ∧ (t.set row column v role h).1.outcome = .ok true ∧
      ∃ name entered cfg, t.names[row.toNat]? = some name ∧ v.toText = .ok entered ∧
        Settings.setComment t.settings name entered = .ok cfg ∧
        (t.set row column v role h).1.table = { t with settings := cfg } := by
  unfold set
  split
  · rename_i r c hindex
    have hcolumn := column_of_index? hindex
    split
    · exact .inl ⟨rfl, by simp⟩
    · rename_i name value hrow
      have hname : t.names[row.toNat]? = some name := by
        rw [row_of_index? hindex, Int.toNat_natCast, names, List.getElem?_map, hrow]
        rfl
      split
      · rename_i hc
        exact absurd ⟨rfl, by omega⟩ hno
      split
      · rename_i hc
        unfold setComment
        split
        · exact .inl ⟨rfl, by simp⟩
        · rename_i entered hentered
          split
          · exact .inl ⟨rfl, by simp⟩
          · rename_i cfg hcfg
            exact .inr ⟨by omega, rfl, name, entered, cfg, hname, hentered, hcfg, rfl⟩
      · exact .inl ⟨rfl, by simp⟩
  · exact .inl ⟨rfl, by simp⟩

namespace Provenance

/-- The comment that an event sets, with the name of its variable: an edit in the column of comments,
if it is accepted. -/
def commented (d : Desktop) : Event → Option (Text × Text)
  | .user now (.edit row column v role) =>
    if column = 3 ∧ (d.act now (.edit row column v role)).1 = .ok (some true) then
      match d.names?.bind (·[row.toNat]?), v.toText with
      | some name, .ok entered => some (name, entered)
      | _, _ => none
    else none
  | _ => none

/-- The names of the variables of a sheet, if they can be read. -/
def namesAt? (d : Disk) (k : Key) : Option (List Text) :=
  match d.content? k with
  | some (.text t) => (Store.names (Sheet.split t)).toOption
  | _ => none

variable {d : Desktop} {e : Event} {now : Text} {name t : Text} {k : Key} {cfg : Members}
  {action : UserAction} {names : List Text}

/-- **What an edit does to the comments** that are shown. -/
theorem commented_cases {row column : ℤ} {v : Scalar} {role : CellRole} (d : Desktop) (now : Text)
    (hno : ¬(role = .edit ∧ column = 1)) :
    (commented d (.user now (.edit row column v role)) = none ∧
      (d.edit row column v role).2.settings? = d.settings?) ∨
    ∃ name t cfg cfg', commented d (.user now (.edit row column v role)) = some (name, t) ∧
      d.settings? = some cfg ∧ Settings.setComment cfg name t = .ok cfg' ∧
      (d.edit row column v role).2.settings? = some cfg' := by
  cases ht : d.window.table with
  | none => exact .inl ⟨by simp [commented, act, edit, ht, Except.map], by simp [edit, ht, settings?]⟩
  | some tbl =>
    have hnames : d.names? = some tbl.names := by simp [names?, ht]
    have hsettings : d.settings? = some tbl.settings := by simp [settings?, ht]
    rcases tbl.set_of_no_value row v d.host hno with ⟨htable, hrefused⟩ |
      ⟨hcolumn, haccepted, name, entered, cfg, hname, hentered, hcfg, htable⟩
    · left
      constructor
      · unfold commented act edit
        simp only [ht]
        rw [if_neg]
        rintro ⟨-, haccepted⟩
        generalize (tbl.set row column v role d.host).1.outcome = outcome at hrefused haccepted
        rcases outcome with fault | accepted
        · simp [Except.map] at haccepted
        · exact hrefused (by simpa [Except.map] using haccepted)
      · simp [edit, ht, settings?, htable]
    · refine .inr ⟨name, entered, tbl.settings, cfg, ?_, hsettings, hcfg,
        by simp [edit, ht, settings?, htable]⟩
      unfold commented act edit
      simp only [ht, haccepted, hnames, hentered, Option.bind_some, hname]
      rw [if_pos ⟨hcolumn, rfl⟩]

/-- A comment is set on one of the variables shown. -/
theorem mem_of_commented (h : commented d e = some (name, t)) :
    ∃ names, d.names? = some names ∧ name ∈ names := by
  unfold commented at h
  split at h
  · split at h
    · split at h
      · rename_i name' entered hname hentered
        obtain ⟨rfl, rfl⟩ := Prod.mk.inj (Option.some.inj h)
        obtain ⟨names, hnames, hget⟩ := Option.bind_eq_some_iff.1 hname
        exact ⟨names, hnames, List.mem_of_getElem? hget⟩
      · simp at h
    · simp at h
  · simp at h

/-! ### One event -/

/-- The files are as before, and so is what is left to write to them, and how deep the host goes. -/
structure LeavesFiles (h h' : Host) : Prop where
  nodes : h'.disk.nodes = h.disk.nodes
  unwritten : h'.disk.unwritten = h.disk.unwritten
  limits : h'.conditions.limits = h.conditions.limits

/-- The user edits no value, and what happens outside leaves the files. -/
def IsPlain (d : Desktop) : Event → Prop
  | .user _ (.edit _ column _ role) => ¬(role = .edit ∧ column = 1)
  | .user _ _ => True
  | .outside host => LeavesFiles d.host host

/-- Which files such an event changes, if nothing is left to write. -/
theorem content?_step_of_isPlain (hd : d.Plain) (hsettled : d.Settled) (he : IsPlain d e) (k : Key) :
    (step d e).host.disk.content? k = d.host.disk.content? k ∨
      SavedBy d e k ((step d e).host.disk.content? k) := by
  cases e with
  | outside host => exact .inl (Disk.content?_of_nodes he.nodes k)
  | user now action =>
    by_cases hedit : ∃ row column v role, action = .edit row column v role
    · obtain ⟨row, column, v, role, rfl⟩ := hedit
      left
      simp only [step, act, (edit_frame d he).1]
    · rcases content?_step hd fun row column v role h _ _ =>
          absurd ⟨row, column, v, role, h⟩ hedit with hsame | hsaved | ⟨-, _, -, f, t, _, hdue, -⟩
      · exact .inl hsame
      · exact .inr hsaved
      · rw [due_of_settled hsettled] at hdue
        simp at hdue

/-- **Such an event leaves nothing to write.** -/
theorem settled_step (hd : d.Settled) (he : IsPlain d e) : (step d e).Settled := by
  cases e with
  | outside host =>
    intro l hl
    refine ⟨(hd l hl).spent, fun f hf => ?_⟩
    have hsame : (step d (.outside host)).host.disk.unwritten = d.host.disk.unwritten := he.unwritten
    unfold Disk.unwritten?
    rw [hsame]
    exact (hd l hl).written f hf
  | user now action =>
    by_cases hedit : ∃ row column v role, action = .edit row column v role
    · obtain ⟨row, column, v, role, rfl⟩ := hedit
      intro l hl
      rw [show (step d (.user now (.edit row column v role))).heldLock = d.heldLock from
        heldLock_edit d row column v role] at hl
      rw [show (step d (.user now (.edit row column v role))).host.disk = d.host.disk from
        (edit_frame d he).1]
      exact hd l hl
    · exact (moves_act d now fun _ _ _ _ h => hedit ⟨_, _, _, _, h⟩).preserves
        (fun _ _ => settled_move) hd

theorem limits_step (he : IsPlain d e) :
    (step d e).host.conditions.limits = d.host.conditions.limits := by
  cases e with
  | outside host => exact he.limits
  | user now action => exact congrArg Conditions.limits (conditions_act d now action)

/-- An action that shows nothing keeps what is shown, unless it is an edit. -/
theorem leaves_of_unshown (hno : ∀ row column v role, action ≠ .edit row column v role)
    (hs : shown d (.user now action) = none) :
    (step d (.user now action)).settings? = d.settings? ∧
      (step d (.user now action)).names? = d.names? := by
  have hleaves : ∀ {d'}, Leaves d d' → d'.settings? = d.settings? ∧ d'.names? = d.names? :=
    fun h => ⟨h.settings, h.names⟩
  cases action with
  | edit row column v role => exact absurd rfl (hno row column v role)
  | filter t => exact hleaves (leaves_setFilter d t)
  | save => exact hleaves (leaves_saveSettings d)
  | close => exact hleaves (leaves_closeCurrent d)
  | load q =>
    cases ho : d.opening q with
    | none => exact hleaves (load_of_opening_none ho now).1
    | some found =>
      obtain ⟨p, sheet, h⟩ := found
      obtain ⟨hload, hdots, -, hdue, -⟩ := load_of_opening ho now
      have hnone : settingsFor p sheet now h = none := by
        rw [shown_load ho] at hs
        simpa using hs
      obtain ⟨hshowing, -⟩ := showing_of_none (d := d.closeCurrent.2.hold p sheet h) hnone
        (hold_plain hdots) hdue
      have hclose := leaves_closeCurrent d
      simp only [step, act, hload]
      exact ⟨hshowing.settings.trans hclose.settings, hshowing.names.trans hclose.names⟩

theorem names_of_unshown (he : IsPlain d e) (hs : shown d e = none) : (step d e).names? = d.names? := by
  cases e with
  | outside host => rfl
  | user now action =>
    by_cases hedit : ∃ row column v role, action = .edit row column v role
    · obtain ⟨row, column, v, role, rfl⟩ := hedit
      exact (edit_frame d he).2
    · exact (leaves_of_unshown (fun _ _ _ _ h => hedit ⟨_, _, _, _, h⟩) hs).2

/-- The settings are those of before, or one comment was set. -/
theorem settings_of_unshown (he : IsPlain d e) (hs : shown d e = none) :
    (step d e).settings? = d.settings? ∨
    ∃ name t cfg cfg', commented d e = some (name, t) ∧ d.settings? = some cfg ∧
      Settings.setComment cfg name t = .ok cfg' ∧ (step d e).settings? = some cfg' := by
  cases e with
  | outside host => exact .inl rfl
  | user now action =>
    by_cases hedit : ∃ row column v role, action = .edit row column v role
    · obtain ⟨row, column, v, role, rfl⟩ := hedit
      exact (commented_cases d now he).imp_left And.right
    · exact .inl (leaves_of_unshown (fun _ _ _ _ h => hedit ⟨_, _, _, _, h⟩) hs).1

/-- A sheet that is opened is the one opened last. -/
theorem parts_of_opened {p : Path} {sheet : SheetFile} {h : Host}
    (ho : opened d e = some (p, sheet, h)) :
    (step d e).window.current.map Path.parts = some p.parts := by
  cases hs : shown d e with
  | none =>
    rw [(step_of_unshown ho hs).1]
    rfl
  | some brought =>
    obtain ⟨p', sheet', h', ho', hk⟩ := opened_of_shown hs
    obtain ⟨p'', hcurrent, hk', -⟩ := step_of_shown hs
    obtain rfl : p = p' := (Prod.mk.inj (Option.some.inj (ho.symm.trans ho'))).1
    rw [hcurrent, Option.map_some, hk', hk]

/-- What an event leaves that shows a sheet under settings. -/
structure Brings (d' : Desktop) (k : Key) (cfg : Members) : Prop where
  current : ∃ p, d'.window.current = some p ∧ p.parts = k
  held : d'.window.held = .shown
  settings : d'.settings? = some cfg
  names : ∃ names, d'.names? = some names ∧ namesAt? d'.host.disk k = some names
  comments : d'.host.Legible k → 2 ≤ d'.host.conditions.limits.read →
    Settings.Neat d'.host.conditions.limits.read cfg ∧ ∀ names, d'.names? = some names →
      ∀ name ∈ names, Settings.comment? cfg name = d'.host.keptComment? k name

/-- **A sheet that is shown** is held, under the comments kept beside it. -/
theorem brings_of_shown (hs : shown d e = some (k, cfg)) : Brings (step d e) k cfg := by
  obtain ⟨p, sheet, h, ho, rfl⟩ := opened_of_shown hs
  obtain ⟨now, q, rfl, ho⟩ := exists_load_of_opened ho
  obtain ⟨hload, -⟩ := load_of_opening ho now
  obtain ⟨hhome, t, htext, hslots⟩ := exists_text_of_opening ho
  have hsome : settingsFor p sheet now h = some cfg := by
    rw [shown_load ho] at hs
    simpa using hs
  have hlimits : (d.load q now).2.host.conditions.limits = h.conditions.limits := by
    have hsame := conditions_act d now (.load q)
    rw [← conditions_of_opening ho] at hsame
    exact congrArg Conditions.limits hsame
  obtain ⟨-, ⟨tbl, htbl⟩, hcurrent, hdisk⟩ :=
    showing_of_settings (d := d.closeCurrent.2.hold p sheet h) hsome
  have hn : Store.names sheet.slots = .ok tbl.names := by
    rw [Store.names, htbl.rows]
    rfl
  have hnames : (((d.closeCurrent.2.hold p sheet h).showing p sheet now).2).names? =
      some tbl.names := by simp [names?, htbl.table]
  rw [hload] at hlimits
  simp only [step, act, hload]
  refine ⟨⟨p, hcurrent, rfl⟩, htbl.held, by simp [settings?, htbl.table, htbl.settings],
    ⟨tbl.names, hnames, ?_⟩, fun hlegible hlevels => ?_⟩
  · rw [hdisk, namesAt?]
    simp only [hold, htext, ← hslots, hn, Except.toOption]
  · have hcontent := congrArg (Disk.content? · (sidecarKey p.parts)) hdisk
    rw [hlimits] at hlevels ⊢
    obtain ⟨hneat, hkept⟩ := neat_of_settingsFor hhome (hlegible.congr hcontent.symm hlimits.symm)
      hlevels hsome
    refine ⟨hneat, fun names hnames' name hname => ?_⟩
    rw [Host.keptComment?_congr hcontent hlimits]
    refine hkept names ?_ name hname
    rw [hn, Option.some.inj (hnames.symm.trans hnames')]

theorem closes_of_opened {found : Path × SheetFile × Host} (ho : opened d e = some found) :
    Closes e := by
  obtain ⟨now, q, rfl, -⟩ := exists_load_of_opened ho
  trivial

theorem closes_of_shown (hs : shown d e = some (k, cfg)) : Closes e := by
  obtain ⟨p, sheet, h, ho, -⟩ := opened_of_shown hs
  exact closes_of_opened ho

/-- A sheet stays held as long as nothing closes it. -/
theorem held_of_not_closes (he : ¬Closes e) : (step d e).window.held = d.window.held := by
  cases e with
  | outside host => rfl
  | user now action =>
    cases action with
    | load q => exact absurd trivial he
    | close => exact absurd trivial he
    | save => exact held_saveSettings d
    | edit row column v role => exact (window_edit d row column v role).2
    | filter t =>
      simp only [step, act, setFilter]
      split
      · rfl
      · exact held_applyFilter _ _

/-- **Closing leaves beside a sheet what giving up the sheet held leaves there**, unless the event
opens the sheet and does not show it. -/
theorem content?_of_closes (hk : IsSheetKey k) (he : Closes e)
    (hopen : ∀ p sheet h, opened d e = some (p, sheet, h) → shown d e = none →
      IsSheetKey p.parts ∧ p.parts ≠ k) :
    (step d e).host.disk.content? (sidecarKey k) =
      d.closeCurrent.2.host.disk.content? (sidecarKey k) := by
  cases e with
  | outside host => exact absurd he (by simp [Closes])
  | user now action =>
    cases action with
    | close => rfl
    | load q =>
      cases ho : d.opening q with
      | none => exact (load_of_opening_none ho now).2 _
      | some found =>
        obtain ⟨p, sheet, h⟩ := found
        refine (content?_of_opening ho (sidecarKey k)).resolve_right ?_
        rintro ⟨hs, hkey, -⟩
        obtain ⟨hp, hother⟩ := hopen p sheet h ho hs
        exact absurd (sidecarKey_injective hk hp hkey).symm hother
    | _ => exact absurd he (by simp [Closes])

theorem exists_settings_of_names (h : d.names? = some names) : ∃ cfg, d.settings? = some cfg := by
  obtain ⟨t, ht, -⟩ := Option.map_eq_some_iff.1 h
  exact ⟨t.settings, by rw [settings?, ht]; rfl⟩

/-! ### Orderly runs -/

section Runs

variable (h₀ : Host) (es : List Event)

/-- A run over text files that only the window changes, without an edit of a value. Beside the
sheets settings can be written, and what is there at first has comments that are an object. The host
goes down two levels at least, so that it can read the settings of a new sheet. -/
structure Orderly : Prop where
  plain : ∀ n e, es[n]? = some e → IsPlain (deskAfter h₀ es n) e
  sheets : OpensSheets h₀ es
  canSave : ∀ n, (deskAfter h₀ es n).CanSave
  legible : ∀ n p, (deskAfter h₀ es n).window.current = some p → h₀.Legible p.parts
  levels : 2 ≤ h₀.conditions.limits.read

variable {h₀ es} {n : ℕ}

namespace Orderly

variable (hrun : Orderly h₀ es)

include hrun

theorem ok (n : ℕ) : Ok (deskAfter h₀ es n) := deskAfter_ok hrun.sheets n

/-- The sheet opened last is at home. -/
theorem homed (n : ℕ) : (deskAfter h₀ es n).Homed := by
  have hboth : (deskAfter h₀ es n).Placed ∧ (deskAfter h₀ es n).Homed := by
    refine stateAfter_induction (P := fun d : Desktop => d.Placed ∧ d.Homed)
      ⟨placed_first h₀, fun p hp => absurd hp (by simp)⟩ (fun n e he hd => ?_) n
    cases e with
    | outside host =>
      have hfiles := hrun.plain n _ he
      exact ⟨⟨hd.1.plain, hd.1.held, hd.1.closed⟩,
        hd.2.mono rfl (Disk.keepsDirectories_of_nodes hfiles.nodes)⟩
    | user now action => exact homed_act hd.1 hd.2 now action
  exact hboth.2

/-- Nothing is ever left to write. -/
theorem settled (n : ℕ) : (deskAfter h₀ es n).Settled :=
  stateAfter_induction (P := fun d : Desktop => d.Settled)
    (fun l hl => absurd hl (by simp [heldLock])) (fun n e he hd => settled_step hd (hrun.plain n e he)) n

theorem limits (n : ℕ) :
    (deskAfter h₀ es n).host.conditions.limits = h₀.conditions.limits :=
  stateAfter_induction (P := fun d : Desktop => d.host.conditions.limits = h₀.conditions.limits) rfl
    (fun n e he hsame => (limits_step (hrun.plain n e he)).trans hsame) n

theorem levels_at (n : ℕ) : 2 ≤ (deskAfter h₀ es n).host.conditions.limits.read := by
  rw [hrun.limits]
  exact hrun.levels

/-- What is shown can be written whole. -/
theorem written (hcfg : (deskAfter h₀ es n).settings? = some cfg) :
    Settings.written (deskAfter h₀ es n).host.conditions (.obj cfg) =
      (.ok (), (Json.obj cfg).indented) := by
  obtain ⟨p, hp⟩ := Option.isSome_iff_exists.1 ((hrun.ok n).current (by rw [hcfg]; rfl))
  exact written_of_canSave (hrun.canSave n) (hrun.homed n) (pending_eq_some.2 ⟨hp, hcfg⟩)

theorem shallow (n : ℕ) : (deskAfter h₀ es n).Shallow := by
  intro cfg hcfg
  rw [hrun.written hcfg]
  simp

/-- **No sheet is changed.** -/
theorem content?_sheet (hk : IsSheetKey k) (n : ℕ) :
    (deskAfter h₀ es n).host.disk.content? k = h₀.disk.content? k := by
  induction n with
  | zero => simp [deskAfter, stateAfter_zero]
  | succ n ih =>
    cases he : es[n]? with
    | none => rw [deskAfter_succ_none h₀ he, ih]
    | some e =>
      rw [deskAfter_succ h₀ he]
      rcases content?_step_of_isPlain (hrun.ok n).sound.plain (hrun.settled n) (hrun.plain n e he) k with
        hsame | ⟨p, cfg, -, hkey, -⟩
      · rw [hsame, ih]
      · exact absurd hkey.symm (sidecarKey_ne hk)

/-- What can be read in a sheet that is opened was there at first. -/
theorem names_of_opened {p : Path} {sheet : SheetFile} {h : Host} (he : es[n]? = some e)
    (ho : opened (deskAfter h₀ es n) e = some (p, sheet, h)) :
    IsSheetKey p.parts ∧ h.disk.Home p ∧
      namesAt? h₀.disk p.parts = (Store.names sheet.slots).toOption := by
  have hk := hrun.sheets n e p sheet h he ho
  obtain ⟨now, q, rfl, ho⟩ := exists_load_of_opened ho
  obtain ⟨-, -, -, -, hcontent⟩ := load_of_opening ho now
  obtain ⟨hhome, t, htext, hslots⟩ := exists_text_of_opening ho
  refine ⟨hk, hhome, ?_⟩
  have hclose : (deskAfter h₀ es n).closeCurrent.2.host.disk.content? p.parts =
      (deskAfter h₀ es n).host.disk.content? p.parts := by
    have hdue := due_of_settled (hrun.settled n)
    rcases content?_closeCurrent_of_due (k := p.parts) (hrun.ok n).sound.plain (by simp [hdue]) with
      hsame | ⟨p', cfg, -, hkey, -⟩
    · exact hsame
    · exact absurd hkey.symm (sidecarKey_ne hk)
  rw [hcontent, hclose, hrun.content?_sheet hk] at htext
  simp only [namesAt?, htext, hslots]

/-- **What is shown can be written and read again**, and so can what is kept beside the sheets. -/
theorem neat (n : ℕ) : (∀ cfg, (deskAfter h₀ es n).settings? = some cfg →
      Settings.Neat (deskAfter h₀ es n).host.conditions.limits.read cfg) ∧
    ∀ k, h₀.Legible k → (deskAfter h₀ es n).host.Legible k := by
  induction n with
  | zero =>
    simp only [deskAfter, stateAfter_zero]
    exact ⟨by simp [settings?], fun _ hk => hk⟩
  | succ n ih =>
    cases he : es[n]? with
    | none => rwa [deskAfter_succ_none h₀ he]
    | some e =>
      obtain ⟨hneat, hlegible⟩ := ih
      have hlimits := limits_step (hrun.plain n e he)
      -- first what is kept beside the sheets: a sheet that is shown takes its comments from there
      have hbeside : ∀ k, h₀.Legible k → (deskAfter h₀ es (n + 1)).host.Legible k := by
        intro k hk
        rw [deskAfter_succ h₀ he]
        rcases content?_step_of_isPlain (hrun.ok n).sound.plain (hrun.settled n) (hrun.plain n e he)
          (sidecarKey k) with hsame | ⟨p, cfg, hcfg, -, htext, -⟩
        · exact (hlegible k hk).congr hsame hlimits
        · rw [hrun.written hcfg] at htext
          refine Host.legible_of_saved ?_ htext
          rw [hlimits]
          exact hneat cfg hcfg
      refine ⟨fun cfg hcfg => ?_, hbeside⟩
      cases hs : shown (deskAfter h₀ es n) e with
      | some brought =>
        obtain ⟨k, cfg'⟩ := brought
        have hbrings := brings_of_shown hs
        rw [← deskAfter_succ h₀ he] at hbrings
        obtain ⟨p, hcurrent, rfl⟩ := hbrings.current
        obtain rfl := Option.some.inj (hbrings.settings.symm.trans hcfg)
        exact (hbrings.comments (hbeside _ (hrun.legible (n + 1) p hcurrent))
          (hrun.levels_at (n + 1))).1
      | none =>
        rw [deskAfter_succ h₀ he] at hcfg ⊢
        rw [hlimits]
        rcases settings_of_unshown (hrun.plain n e he) hs with hsame |
          ⟨name, t, cfg₀, cfg', -, hcfg₀, hedit, hcfg'⟩
        · exact hneat cfg (hsame ▸ hcfg)
        · obtain rfl := Option.some.inj (hcfg'.symm.trans hcfg)
          exact (hneat cfg₀ hcfg₀).setComment (hrun.levels_at n) hedit

/-- What is shown can be read again at any moment. -/
theorem neat_at (hcfg : (deskAfter h₀ es n).settings? = some cfg) (m : ℕ) :
    Settings.Neat (deskAfter h₀ es m).host.conditions.limits.read cfg := by
  have hneat := (hrun.neat n).1 cfg hcfg
  rw [hrun.limits] at hneat ⊢
  exact hneat

/-- The comments kept beside a sheet depend on the file only. -/
theorem keptComment?_congr {m : ℕ} {x : Text}
    (hcontent : (deskAfter h₀ es m).host.disk.content? (sidecarKey k) =
      (deskAfter h₀ es n).host.disk.content? (sidecarKey k)) :
    (deskAfter h₀ es m).host.keptComment? k x = (deskAfter h₀ es n).host.keptComment? k x :=
  Host.keptComment?_congr hcontent ((hrun.limits m).trans (hrun.limits n).symm)

/-- **A sheet that is opened and not shown** is one whose names cannot be read. -/
theorem unreadable_of_unshown {p : Path} {sheet : SheetFile} {h : Host} (he : es[n]? = some e)
    (ho : opened (deskAfter h₀ es n) e = some (p, sheet, h))
    (hs : shown (deskAfter h₀ es n) e = none) : ∃ cause, Store.names sheet.slots = .error cause := by
  cases hn : Store.names sheet.slots with
  | error cause => exact ⟨cause, rfl⟩
  | ok names =>
    obtain ⟨-, hhome, -⟩ := hrun.names_of_opened he ho
    obtain ⟨hcurrent, -⟩ := step_of_unshown ho hs
    obtain ⟨now, q, rfl, ho⟩ := exists_load_of_opened ho
    obtain ⟨hload, -⟩ := load_of_opening ho now
    have hdisk : (deskAfter h₀ es (n + 1)).host.disk = h.disk := by
      rw [deskAfter_succ h₀ he]
      simp only [step, act, hload]
      exact disk_showing_of_names (d := (deskAfter h₀ es n).closeCurrent.2.hold p sheet h) hn
    have hconditions : (deskAfter h₀ es (n + 1)).host.conditions = h.conditions := by
      rw [deskAfter_succ h₀ he, conditions_of_opening ho]
      exact conditions_act _ now (.load q)
    rw [← deskAfter_succ h₀ he] at hcurrent
    -- settings can be written beside it, so those kept there can be looked for
    obtain ⟨s, hsidecar⟩ := Path.exists_sidecar hhome.named
    have hsaved := (hrun.canSave (n + 1) p s hcurrent hsidecar).1
    rw [Settings.save_of_nodes (congrArg Disk.nodes hdisk) hconditions] at hsaved
    have hlegible : h.Legible p.parts :=
      ((hrun.neat (n + 1)).2 _ (hrun.legible (n + 1) p hcurrent)).congr (by rw [hdisk])
        (by rw [hconditions])
    have hlevels := hrun.levels_at (n + 1)
    rw [hconditions] at hlevels
    obtain ⟨cfg, hcfg⟩ := settingsFor_of_canSave hhome hlegible hlevels hn hsidecar ⟨_, hsaved⟩ now
    rw [shown_load ho, hcfg] at hs
    simp at hs

/-- Closing gives up the sheet held, unless another one is shown. -/
theorem held_of_closes (he : es[n]? = some e) (hcloses : Closes e)
    (hs : shown (deskAfter h₀ es n) e = none) :
    (deskAfter h₀ es (n + 1)).window.held = .nothing := by
  have hclosed : (deskAfter h₀ es n).closeCurrent.2.window.held = .nothing := by
    obtain ⟨d', hclose⟩ := closeCurrent_of_homed (hrun.homed n) (hrun.shallow n) (hrun.settled n)
    rw [hclose]
    exact held_closeCurrent hclose
  rw [deskAfter_succ h₀ he]
  cases e with
  | outside host => exact absurd hcloses (by simp [Closes])
  | user now action =>
    cases action with
    | close => exact hclosed
    | load q =>
      cases ho : (deskAfter h₀ es n).opening q with
      | none => exact (held_of_opening_none ho now).trans hclosed
      | some found =>
        obtain ⟨p, sheet, h⟩ := found
        have ho' : opened (deskAfter h₀ es n) (.user now (.load q)) = some (p, sheet, h) := ho
        obtain ⟨-, hhome, -⟩ := hrun.names_of_opened he ho'
        obtain ⟨cause, hn⟩ := hrun.unreadable_of_unshown he ho' hs
        simp only [step, act, (load_of_opening ho now).1]
        refine held_showing_of_unreadable (fun p' hp' => ?_) (fun cfg hcfg => ?_) ?_ hn
        · obtain rfl : p = p' := Option.some.inj hp'
          exact hhome
        · have hsame : ((deskAfter h₀ es n).closeCurrent.2.hold p sheet h).settings? =
              (deskAfter h₀ es n).settings? := (leaves_closeCurrent _).settings
          rw [show ((deskAfter h₀ es n).closeCurrent.2.hold p sheet h).host.conditions =
            (deskAfter h₀ es n).host.conditions from conditions_of_opening ho]
          exact hrun.shallow n cfg (hsame.symm.trans hcfg)
        · obtain ⟨_, -, -, -, -, hload⟩ := exists_of_opening ho
          exact settled_hold hload
    | _ => exact absurd hcloses (by simp [Closes])

end Orderly

/-- What is held is what is shown, a sheet that can be read was opened last only if it is shown, and
the names are those of the sheet shown. -/
structure Sourced (h₀ : Host) (es : List Event) (n : ℕ) : Prop where
  held : (deskAfter h₀ es n).window.held = .nothing ∨ (deskAfter h₀ es n).window.held = .shown ∧
    ∃ p, (deskAfter h₀ es n).window.current = some p ∧ sourceAfter h₀ es n = some p.parts
  current : ∀ p, (deskAfter h₀ es n).window.current = some p →
    namesAt? h₀.disk p.parts ≠ none → sourceAfter h₀ es n = some p.parts
  names : ∀ k, sourceAfter h₀ es n = some k → IsSheetKey k ∧
    ∃ names, (deskAfter h₀ es n).names? = some names ∧ namesAt? h₀.disk k = some names

/-- The sheet opened last is that of before, or it cannot be read. -/
theorem Orderly.current_of_unshown (hrun : Orderly h₀ es) (he : es[n]? = some e)
    (hs : shown (deskAfter h₀ es n) e = none) :
    (deskAfter h₀ es (n + 1)).window.current = (deskAfter h₀ es n).window.current ∨
      ∃ p, (deskAfter h₀ es (n + 1)).window.current = some p ∧ namesAt? h₀.disk p.parts = none := by
  cases ho : opened (deskAfter h₀ es n) e with
  | none =>
    rw [deskAfter_succ h₀ he]
    exact .inl (step_of_unopened ho).1
  | some found =>
    obtain ⟨p, sheet, h⟩ := found
    obtain ⟨cause, hn⟩ := hrun.unreadable_of_unshown he ho hs
    refine .inr ⟨p, ?_, by rw [(hrun.names_of_opened he ho).2.2, hn]; rfl⟩
    rw [deskAfter_succ h₀ he]
    exact (step_of_unshown ho hs).1

theorem Orderly.sourced_of_unshown (hrun : Orderly h₀ es) (he : es[n]? = some e)
    (hs : shown (deskAfter h₀ es n) e = none) (hsourced : Sourced h₀ es n) :
    Sourced h₀ es (n + 1) := by
  have hsource : sourceAfter h₀ es (n + 1) = sourceAfter h₀ es n :=
    sourceAfter_of_none h₀ (by rw [he]; exact hs)
  refine ⟨?_, fun p hp hat => ?_, fun k hk => ?_⟩
  · by_cases hcloses : Closes e
    · exact .inl (hrun.held_of_closes he hcloses hs)
    · have ho : opened (deskAfter h₀ es n) e = none := by
        by_contra hopened
        obtain ⟨found, ho⟩ := Option.ne_none_iff_exists'.1 hopened
        exact hcloses (closes_of_opened ho)
      rw [hsource, deskAfter_succ h₀ he, held_of_not_closes hcloses, (step_of_unopened ho).1]
      exact hsourced.held
  · rw [hsource]
    rcases hrun.current_of_unshown he hs with hsame | ⟨p', hp', hnone⟩
    · exact hsourced.current p (hsame ▸ hp) hat
    · rw [Option.some.inj (hp.symm.trans hp')] at hat
      exact absurd hnone hat
  · rw [hsource] at hk
    rw [deskAfter_succ h₀ he, names_of_unshown (hrun.plain n e he) hs]
    exact hsourced.names k hk

theorem Orderly.sourced_of_shown (hrun : Orderly h₀ es) (he : es[n]? = some e)
    (hs : shown (deskAfter h₀ es n) e = some (k, cfg)) : Sourced h₀ es (n + 1) := by
  have hsource : sourceAfter h₀ es (n + 1) = some k :=
    sourceAfter_of_shown h₀ (by rw [he]; exact hs)
  obtain ⟨p, sheet, h, ho, rfl⟩ := opened_of_shown hs
  have hkey : IsSheetKey p.parts := hrun.sheets n e p sheet h he ho
  obtain ⟨⟨p', hcurrent, hp'⟩, hheld, -, ⟨names, hnames, hat⟩, -⟩ := brings_of_shown hs
  rw [← deskAfter_succ h₀ he] at hcurrent hheld hnames hat
  rw [namesAt?, hrun.content?_sheet hkey] at hat
  refine ⟨.inr ⟨hheld, p', hcurrent, by rw [hsource, hp']⟩, fun q hq _ => ?_, fun k hk => ?_⟩
  · rw [hsource, ← hp', Option.some.inj (hcurrent.symm.trans hq)]
  · obtain rfl := Option.some.inj (hsource.symm.trans hk)
    exact ⟨hkey, names, hnames, hat⟩

/-- **What is held is what is shown**, throughout the run. -/
theorem Orderly.sourced (hrun : Orderly h₀ es) (n : ℕ) : Sourced h₀ es n := by
  induction n with
  | zero =>
    refine ⟨.inl ?_, fun p hp => ?_, fun k hk => ?_⟩
    · simp [deskAfter, stateAfter_zero]
    · simp [deskAfter, stateAfter_zero] at hp
    · simp [sourceAfter] at hk
  | succ n ih =>
    cases he : es[n]? with
    | none =>
      have hsource : sourceAfter h₀ es (n + 1) = sourceAfter h₀ es n :=
        sourceAfter_of_none h₀ (by rw [he]; rfl)
      constructor <;> rw [deskAfter_succ_none h₀ he, hsource]
      exacts [ih.held, ih.current, ih.names]
    | some e =>
      cases hs : shown (deskAfter h₀ es n) e with
      | none => exact hrun.sourced_of_unshown he hs ih
      | some brought => exact hrun.sourced_of_shown he hs

/-! ### What is kept beside a sheet -/

section Kept

variable (hrun : Orderly h₀ es)

include hrun

/-- A sheet that can be read is shown whenever it is opened. -/
theorem Orderly.opened_ne {p : Path} {sheet : SheetFile} {h : Host} (hk : namesAt? h₀.disk k ≠ none)
    (he : es[n]? = some e) (ho : opened (deskAfter h₀ es n) e = some (p, sheet, h))
    (hs : shown (deskAfter h₀ es n) e = none) : IsSheetKey p.parts ∧ p.parts ≠ k := by
  obtain ⟨cause, hn⟩ := hrun.unreadable_of_unshown he ho hs
  obtain ⟨hkey, -, hat⟩ := hrun.names_of_opened he ho
  refine ⟨hkey, ?_⟩
  rintro rfl
  rw [hat, hn] at hk
  exact hk rfl

/-- **An event leaves the comments kept beside a sheet**, or they become those shown, and the sheet
is the one that is shown. -/
theorem Orderly.keptComment?_step (hkey : IsSheetKey k) (hk : namesAt? h₀.disk k ≠ none)
    (he : es[n]? = some e) (x : Text) :
    (deskAfter h₀ es (n + 1)).host.keptComment? k x =
        (deskAfter h₀ es n).host.keptComment? k x ∨
      sourceAfter h₀ es n = some k ∧ ∃ cfg, (deskAfter h₀ es n).settings? = some cfg ∧
        (deskAfter h₀ es (n + 1)).host.keptComment? k x = Settings.comment? cfg x := by
  by_cases hsame : (deskAfter h₀ es (n + 1)).host.disk.content? (sidecarKey k) =
      (deskAfter h₀ es n).host.disk.content? (sidecarKey k)
  · exact .inl (hrun.keptComment?_congr hsame)
  cases e with
  | outside host =>
    rw [deskAfter_succ h₀ he] at hsame
    exact absurd (Disk.content?_of_nodes (hrun.plain n _ he).nodes _) hsame
  | user now action =>
    obtain ⟨cfg, hcfg, htext, hwhere⟩ := saved_of_changed hrun.sheets he hkey hsame
    rw [hrun.written hcfg] at htext
    refine .inr ⟨?_, cfg, hcfg, Host.keptComment?_of_saved (hrun.neat_at hcfg _) htext⟩
    rcases hwhere with ⟨p, hcurrent, rfl⟩ | ⟨p, sheet, h, ho, hs, hp⟩
    · exact (hrun.sourced n).current p hcurrent hk
    · rw [he] at ho hs
      exact absurd hp (hrun.opened_ne hk he ho hs).2

/-- **Closing saves the comments shown** of a sheet that is held. -/
theorem Orderly.keptComment?_of_held (he : es[n]? = some e) (hcloses : Closes e)
    (hheld : (deskAfter h₀ es n).window.held = .shown) (hsource : sourceAfter h₀ es n = some k)
    (x : Text) : ∃ cfg, (deskAfter h₀ es n).settings? = some cfg ∧
      (deskAfter h₀ es (n + 1)).host.keptComment? k x = Settings.comment? cfg x := by
  obtain ⟨hkey, names, hnames, hat⟩ := (hrun.sourced n).names k hsource
  obtain ⟨cfg, hcfg⟩ := exists_settings_of_names hnames
  refine ⟨cfg, hcfg, Host.keptComment?_of_saved (hrun.neat_at hcfg _) ?_⟩
  rcases (hrun.sourced n).held with hnothing | ⟨-, p, hcurrent, hp⟩
  · rw [hheld] at hnothing
    exact absurd hnothing (by simp)
  obtain rfl : p.parts = k := Option.some.inj (hp.symm.trans hsource)
  rw [deskAfter_succ h₀ he, content?_of_closes hkey hcloses
    fun p' sheet h ho hs => hrun.opened_ne (by simp [hat]) he ho hs]
  rw [content?_closeCurrent_of_held (hrun.settled n) (by simp [hheld])]
  exact content?_saveSettings_of_canSave (hrun.canSave n) (hrun.homed n) (hrun.ok n).sound.plain
    (pending_eq_some.2 ⟨hcurrent, hcfg⟩)

/-- Closing saves nothing if no sheet is held. -/
theorem Orderly.keptComment?_of_not_held (hkey : IsSheetKey k) (hk : namesAt? h₀.disk k ≠ none)
    (he : es[n]? = some e) (hcloses : Closes e)
    (hheld : (deskAfter h₀ es n).window.held = .nothing) (x : Text) :
    (deskAfter h₀ es (n + 1)).host.keptComment? k x =
      (deskAfter h₀ es n).host.keptComment? k x := by
  refine hrun.keptComment?_congr ?_
  rw [deskAfter_succ h₀ he, content?_of_closes hkey hcloses
    fun p' sheet h ho hs => hrun.opened_ne hk he ho hs, closeCurrent_of_nothing hheld]

end Kept

end Runs

end Provenance

end EquationSheet
