import EquationSheet.Proofs.Coherence
import EquationSheet.Proofs.Writers

/-!
# Cells that can be edited

A table is made with the rights of the sheet behind it: its value cells can be edited if the sheet
may be written. A later load or close gives the sheet up: once the settings are saved the file is
closed, even if this ends in a fault. The table stays on the screen until another sheet is shown, and
so do its rights, with no open file behind them.

* `Desktop.Backed`: a table has the rights of its sheet.
* `Desktop.HoldsOpen`, `holdsOpen_step`: the file under the table is open until it is given up.
* `setOne_of_open`, `setOne_of_closed`: **a value that is planned** is written, unless writes fail, or
  refused because no file is open.
* `holdsOpen_iff_keepsShown`: the file is open as long as nothing has given it up since it was shown.
* `editable_writable_iff`: **when the cells that can be edited can be written**.
* `editable_closed`: a load that fails leaves cells that can be edited over a closed file.
-/

namespace EquationSheet

open Desktop

theorem toOption_eq_some {ε α : Type} {out : Except ε α} {a : α} :
    out.toOption = some a ↔ out = .ok a := by
  cases out <;> simp [Except.toOption]

/-! ### Writing a value -/

namespace Store

variable {s : SheetFile} {name : Text} {v : Scalar} {r : Rewrite}

/-- What is planned is written if the sheet is open and may be written, unless writes fail. -/
theorem setOne_of_open {f : OpenFile} (hfile : s.lock.file = some f)
    (hrights : s.readonly = false) (hspent : s.lock.spent = false)
    (hplan : plan s.slots name v = .ok (some r)) (h : Host) :
    (setOne (.file s) name v h).1 = if s.lock.failingStage h = none then
        .ok (some r, .file { s with slots := s.slots.set r.index r.after })
      else .error (.file .diskFull) := by
  obtain ⟨-, new, hr⟩ := replaces_of_plan hplan
  have hset := SheetFile.setText_outcome (t := r.after) (h := h) hfile hrights hspent
    (position?_natCast hr.index_lt)
  unfold setOne
  simp only [SlotSource.texts, hplan, SlotSource.setText]
  generalize s.setText r.index r.after h = out at hset ⊢
  obtain ⟨result, h'⟩ := out
  by_cases hfails : s.lock.failingStage h = none
  · rw [if_pos hfails] at hset ⊢
    subst hset
    rfl
  · rw [if_neg hfails] at hset ⊢
    subst hset
    rfl

/-- Nothing is written, if no file is open. -/
theorem setOne_of_closed (hclosed : ¬s.lock.IsOpen) (hrights : s.readonly = false)
    (hplan : plan s.slots name v = .ok (some r)) (h : Host) :
    setOne (.file s) name v h = (.error (.file (s.lock.refusal h)), h) := by
  obtain ⟨-, new, hr⟩ := replaces_of_plan hplan
  have hwrite := fun t => FileLock.write_of_closed (h := h) hclosed hrights t
  simp only [setOne, SlotSource.texts, hplan, SlotSource.setText, SheetFile.setText, hrights,
    position?_natCast hr.index_lt, hwrite, Bool.false_eq_true, if_false]

end Store

/-! ### The rights of a table -/

namespace Table

variable {t : Table} {row : ℤ} {v : Scalar}

/-- The slots are an open file that may be written. -/
def IsWritable (t : Table) : Prop :=
  ∃ l, t.source.lock? = some l ∧ l.IsOpen ∧ l.readonly = false

/-- Why a value is refused where the file of the slots is not open. -/
def refusal (t : Table) (h : Host) : FileFault :=
  match t.source with
  | .memory .. => .notWritable
  | .file s => s.lock.refusal h

/-- The rewrite that a value entered in a row comes to, if it is a number and the store has a slot
to write it in. -/
def planned (t : Table) (row : ℤ) (v : Scalar) : Option Store.Rewrite := do
  let entry ← t.rows[row.toNat]?
  let entered ← v.toText.toOption
  let x ← (Numeral.parse entered.trim).toOption
  (← (Store.plan t.source.texts entry.1 (.float x)).toOption)

/-- A value cell can be edited if there is such a cell and the table has the rights. -/
theorem editable_iff : (t.flags row 1).editable = true ↔
    t.index? row 1 = some (row.toNat, 1) ∧ t.readonly = false := by
  unfold flags
  cases hindex : t.index? row 1 with
  | none => simp
  | some cell =>
    obtain ⟨r, c⟩ := cell
    obtain rfl : row = r := row_of_index? hindex
    obtain rfl : 1 = c := by exact_mod_cast column_of_index? hindex
    simp

/-- The edit of a value sets the number that is entered. -/
theorem set_of_planned {r : Store.Rewrite} (heditable : (t.flags row 1).editable = true)
    (hplanned : t.planned row v = some r) : ∃ name x,
      Store.plan t.source.texts name (.float x) = .ok (some r) ∧
      ∀ h, t.set row 1 v .edit h = t.setNumber name x h := by
  obtain ⟨hindex, hrights⟩ := editable_iff.1 heditable
  simp only [planned, Option.bind_eq_bind, Option.bind_eq_some_iff, toOption_eq_some] at hplanned
  obtain ⟨⟨name, value⟩, hrow, entered, hentered, x, hx, planned, hplan, rfl⟩ := hplanned
  refine ⟨name, x, hplan, fun h => ?_⟩
  unfold set
  simp only [hindex, hrow, if_true, setValue, hrights, Bool.false_eq_true, if_false, hentered, hx]

theorem readonly_create {source : SlotSource} {cfg : Members} {readonly : Bool}
    (hnew : create source cfg readonly = .ok t) : t.readonly = readonly := by
  unfold create reload at hnew
  cases hrows : Store.entries source.texts with
  | error e => simp [hrows] at hnew
  | ok rows =>
    simp only [hrows, Except.ok.injEq] at hnew
    subst hnew
    rfl

theorem reload_readonly (t : Table) : t.reload.2.1.readonly = t.readonly := by
  unfold reload
  split <;> rfl

/-- **An edit leaves the rights.** -/
theorem set_readonly (t : Table) (row column : ℤ) (v : Scalar) (role : CellRole) (h : Host) :
    (t.set row column v role h).1.table.readonly = t.readonly := by
  rcases set_cases t row column v role h with ⟨-, -, name, x, hset⟩ |
    ⟨-, htable | ⟨cfg, -, htable⟩⟩
  · rw [hset]
    rcases (setNumber_cases t name x h).2 with ⟨r, source, -, htable, -⟩ | ⟨-, htable⟩
    · rw [htable, reload_readonly]
    · rw [htable]
  · rw [htable]
  · rw [htable]

variable {s : SheetFile} {name : Text} {x : Binary64} {r : Store.Rewrite}

/-- Where the file is open a value that is planned is set, unless writes fail. -/
theorem setOne_of_open (ht : t.Writable) (hsource : t.source = .file s) (hopen : s.lock.IsOpen)
    (hrights : s.readonly = false) (hplan : Store.plan t.source.texts name (.float x) = .ok (some r))
    (h : Host) :
    (Store.setOne t.source name (.float x) h).1 = if h.conditions.writeFault = none then
        .ok (some r, .file { s with slots := s.slots.set r.index r.after })
      else .error (.file .diskFull) := by
  obtain ⟨f, hfile⟩ := Option.isSome_iff_exists.1 hopen.file
  have hlock : t.source.lock? = some s.lock := by rw [hsource, SlotSource.lock?]
  have hstage : s.lock.failingStage h = h.conditions.writeFault := by
    rw [FileLock.failingStage, ht.faultless s.lock hlock, Option.none_or]
  rw [hsource] at hplan ⊢
  rw [← hstage]
  exact Store.setOne_of_open hfile hrights hopen.spent hplan h

/-- Where the file is open the edit of a value is accepted, unless writes fail. -/
theorem setNumber_of_open (ht : t.Writable) (hsource : t.source = .file s) (hopen : s.lock.IsOpen)
    (hrights : s.readonly = false) (hplan : Store.plan t.source.texts name (.float x) = .ok (some r))
    (h : Host) : (t.setNumber name x h).1.outcome = .ok h.conditions.writeFault.isNone := by
  have hset := setOne_of_open ht hsource hopen hrights hplan h
  cases hfails : h.conditions.writeFault with
  | none =>
    rw [if_pos hfails] at hset
    rcases (setNumber_cases t name x h).2 with ⟨r', source', -, htable, houtcome⟩ | ⟨hno, -⟩
    · -- the slots have equals signs after the edit too, so the rows are read again
      have hequals := equals_setNumber ht name x h
      rw [htable, reload_source] at hequals
      rw [houtcome, reload_of_equals hequals]
      rfl
    · exact absurd hset (hno r _)
  | some stage =>
    rw [if_neg (by simp [hfails])] at hset
    unfold setNumber
    generalize Store.setOne t.source name (.float x) h = out at hset ⊢
    obtain ⟨result, h'⟩ := out
    obtain rfl : result = _ := hset
    rfl

/-- Where no file is open the edit of a value changes nothing. -/
theorem setNumber_of_closed (hsource : t.source = .file s) (hclosed : ¬s.lock.IsOpen)
    (hrights : s.readonly = false) (hplan : Store.plan t.source.texts name (.float x) = .ok (some r))
    (h : Host) : (t.setNumber name x h).1.table = t ∧ (t.setNumber name x h).2.disk = h.disk ∧
      (t.setNumber name x h).1.outcome =
        if t.refusal h = .closed then .error (.file .closed) else .ok false := by
  have hset : Store.setOne t.source name (.float x) h = (.error (.file (t.refusal h)), h) := by
    rw [hsource] at hplan
    simp only [refusal, hsource]
    exact Store.setOne_of_closed hclosed hrights hplan h
  unfold Table.setNumber
  rw [hset]
  cases t.refusal h <;> exact ⟨rfl, rfl, rfl⟩

end Table

namespace Desktop

variable {d d' : Desktop} {t : Table}

/-- **A table has the rights of its sheet.** -/
def Backed (d : Desktop) : Prop :=
  ∀ t, d.window.table = some t → ∃ l, t.source.lock? = some l ∧ t.readonly = l.readonly

theorem backed_first (h : Host) : Backed { host := h } := fun _ ht => absurd ht (by simp)

theorem backed_move (hmove : Move d d') (hd : d.Backed) : d'.Backed := by
  cases hmove with
  | reports current held table disk conditions => exact fun t ht => hd t (table ▸ ht)
  | saves current table beside => exact hd
  | closes =>
    rcases closeSheet_cases d with ⟨sheet, -, hclose⟩ | ⟨t, sheet, -, ht, hsource, hclose⟩ |
      ⟨-, -, hclose⟩
    · rw [hclose]
      exact fun t ht => hd t (by rwa [table_letGo] at ht)
    · intro t' ht'
      rw [hclose, table_letGo] at ht'
      obtain rfl := Option.some.inj ht'
      obtain ⟨l, hl, hrights⟩ := hd t ht
      obtain rfl : sheet.lock = l := by simpa [hsource, SlotSource.lock?] using hl
      exact ⟨_, rfl, hrights.trans (sheet.lock.tryRelease_readonly d.host).symm⟩
    · rw [hclose]
      exact fun t ht => hd t (by rwa [table_letGo] at ht)
  | fails held loads => exact hd
  | opens held plain loads => exact hd
  | shows held creates =>
    rename_i sheet cfg t
    intro t' ht'
    obtain rfl : t = t' := Option.some.inj ht'
    have hsource : t.source = .file sheet := (create_eq creates).1
    exact ⟨sheet.lock, by rw [hsource]; rfl, Table.readonly_create creates⟩

theorem backed_edit (hd : d.Backed) (row column : ℤ) (v : Scalar) (role : CellRole) :
    (d.edit row column v role).2.Backed := by
  unfold edit
  cases ht : d.window.table with
  | none => exact hd
  | some t =>
    intro t' ht'
    obtain rfl := Option.some.inj ht'
    obtain ⟨l, hl, hrights⟩ := hd t ht
    refine ⟨l, ?_, ?_⟩
    · rw [(set_frame t row column v role d.host).2.1, hl]
    · rw [Table.set_readonly, hrights]

/-- **Every action leaves a table with the rights of its sheet.** -/
theorem backed_act (hd : d.Backed) (now : Text) (action : UserAction) :
    (d.act now action).2.Backed :=
  preserves_act (fun _ _ => backed_move)
    (fun _ row column v role hd => backed_edit hd row column v role) hd now action

/-- The sheet behind a table that has the rights. -/
theorem Backed.exists_sheet (hd : d.Backed) (ht : d.window.table = some t)
    (hrights : t.readonly = false) : ∃ s, t.source = .file s ∧ s.readonly = false := by
  obtain ⟨l, hl, hsame⟩ := hd t ht
  cases hsource : t.source with
  | memory slots refuses =>
    rw [hsource] at hl
    exact absurd hl (by simp [SlotSource.lock?])
  | file s =>
    rw [hsource] at hl
    obtain rfl : s.lock = l := Option.some.inj hl
    exact ⟨s, rfl, hsame.symm.trans hrights⟩

variable {row : ℤ}

/-- **While the file is open** a value is refused only because writing it fails. -/
theorem Backed.accepts_of_open (hd : d.Backed) (hready : d.Ready) (ht : d.window.table = some t)
    (heditable : (t.flags row 1).editable = true) (hopen : t.IsWritable) :
    (∀ name x h fault, (Store.setOne t.source name (.float x) h).1 = .error (.file fault) →
      fault = .diskFull ∧ h.conditions.writeFault ≠ none) ∧
    ∀ v, t.planned row v ≠ none →
      (d.edit row 1 v .edit).1 = .ok d.host.conditions.writeFault.isNone := by
  obtain ⟨s, hsource, hrights⟩ := hd.exists_sheet ht (Table.editable_iff.1 heditable).2
  obtain ⟨l, hl, hopen, -⟩ := hopen
  obtain rfl : s.lock = l := by simpa [hsource, SlotSource.lock?] using hl
  have hwritable := hready.table t ht
  constructor
  · intro name x h fault hrefused
    rcases Store.setOne_cases t.source name (.float x) h with ⟨fault', hplan, hset⟩ | ⟨-, hset⟩ |
      ⟨r, fault', hplan, -⟩ | ⟨r, source, -, hset, -⟩
    · obtain ⟨e, rfl⟩ := Store.exists_of_plan_error hplan
      exact absurd (hset.symm.trans hrefused) (by simp)
    · exact absurd (hset.symm.trans hrefused) (by simp)
    · rw [Table.setOne_of_open hwritable hsource hopen hrights hplan] at hrefused
      split at hrefused
      · simp at hrefused
      · exact ⟨by simpa using hrefused.symm, ‹_›⟩
    · exact absurd (hset.symm.trans hrefused) (by simp)
  · intro v hplanned
    obtain ⟨r, hr⟩ := Option.ne_none_iff_exists'.1 hplanned
    obtain ⟨name, x, hplan, hset⟩ := Table.set_of_planned heditable hr
    unfold edit
    simp only [ht, hset]
    exact Table.setNumber_of_open hwritable hsource hopen hrights hplan d.host

/-- **Once the file is closed** every value is refused because of it, and nothing changes. -/
theorem Backed.refuses_of_closed (hd : d.Backed) (ht : d.window.table = some t)
    (heditable : (t.flags row 1).editable = true) (hclosed : ¬t.IsWritable) :
    (∀ name x r h, Store.plan t.source.texts name (.float x) = .ok (some r) →
      (Store.setOne t.source name (.float x) h).1 = .error (.file (t.refusal h))) ∧
    ∀ v, t.planned row v ≠ none →
      (d.edit row 1 v .edit).1 =
        (if t.refusal d.host = .closed then .error (.file .closed) else .ok false) ∧
      (d.edit row 1 v .edit).2.window = d.window ∧
      (d.edit row 1 v .edit).2.host.disk = d.host.disk := by
  obtain ⟨s, hsource, hrights⟩ := hd.exists_sheet ht (Table.editable_iff.1 heditable).2
  have hshut : ¬s.lock.IsOpen := fun hopen => hclosed ⟨s.lock, by rw [hsource]; rfl, hopen, hrights⟩
  refine ⟨fun name x r h hplan => ?_, fun v hplanned => ?_⟩
  · have hrefuses : t.refusal h = s.lock.refusal h := by simp only [Table.refusal, hsource]
    rw [hsource] at hplan
    rw [hrefuses, hsource, Store.setOne_of_closed hshut hrights hplan h]
  · obtain ⟨r, hr⟩ := Option.ne_none_iff_exists'.1 hplanned
    obtain ⟨name, x, hplan, hset⟩ := Table.set_of_planned heditable hr
    obtain ⟨htable, hdisk, houtcome⟩ :=
      Table.setNumber_of_closed hsource hshut hrights hplan d.host
    unfold edit
    simp only [ht, hset]
    exact ⟨houtcome, by rw [htable, ← ht], hdisk⟩

/-! ### The file under the table -/

/-- The file under the table is open. -/
def HoldsOpen (d : Desktop) : Prop :=
  ∃ t l, d.window.table = some t ∧ t.source.lock? = some l ∧ l.IsOpen

theorem holdsOpen_congr (htable : d'.window.table = d.window.table) :
    d'.HoldsOpen ↔ d.HoldsOpen := by
  unfold HoldsOpen
  rw [htable]

theorem HoldsOpen.file?_ne_none (hopen : d.HoldsOpen) : d.file? ≠ none := by
  obtain ⟨t, l, ht, hl, hfile, -⟩ := hopen
  rw [file?, ht, Option.bind_some, SlotSource.file?_eq, hl, Option.bind_some]
  exact Option.isSome_iff_ne_none.1 hfile

/-- Only the file of a sheet that is held is open. -/
theorem HoldsOpen.held (hopen : d.HoldsOpen) (hd : d.Placed) : d.window.held = .shown := by
  by_contra hother
  exact hopen.file?_ne_none (hd.closed hother)

theorem holdsOpen_edit (d : Desktop) (row column : ℤ) (v : Scalar) (role : CellRole) :
    (d.edit row column v role).2.HoldsOpen ↔ d.HoldsOpen := by
  unfold edit
  cases ht : d.window.table with
  | none => exact Iff.rfl
  | some t =>
    have hlock := (set_frame t row column v role d.host).2.1
    unfold HoldsOpen
    simp only [ht, Option.some.injEq, exists_and_left, exists_eq_left', hlock]

/-- **Giving up a sheet** leaves no file open under the table. -/
theorem not_holdsOpen_closeSheet (hd : d.Placed) : ¬d.closeSheet.2.HoldsOpen := by
  rcases closeSheet_cases d with ⟨sheet, hheld, hclose⟩ | ⟨t, sheet, -, -, -, hclose⟩ |
    ⟨hnone, hunshown, hclose⟩
  · intro hopen
    have htable : d.closeSheet.2.window.table = d.window.table := by
      rw [hclose]
      exact table_letGo (d.closeUnshown sheet) _
    have hbefore : d.HoldsOpen := (holdsOpen_congr htable).1 hopen
    exact absurd (hbefore.held hd) (by rw [hheld]; simp)
  · rintro ⟨t', l, ht', hl, hopen⟩
    rw [hclose, table_letGo] at ht'
    obtain rfl := Option.some.inj ht'
    obtain rfl := Option.some.inj hl
    exact sheet.lock.not_isOpen_tryRelease d.host hopen
  · -- a table that holds its file open is one that is held, so its sheet would have been closed
    intro hopen
    have htable : d.closeSheet.2.window.table = d.window.table := by
      rw [hclose]
      exact table_letGo d _
    have hbefore : d.HoldsOpen := (holdsOpen_congr htable).1 hopen
    have hshown := hbefore.held hd
    obtain ⟨t, l, ht, hl, -⟩ := hbefore
    unfold heldLock at hnone
    simp [hshown, ht, hl] at hnone

/-- **Closing** leaves the file open only if saving the settings ends in a fault. -/
theorem holdsOpen_closeCurrent (hd : d.Placed) :
    d.closeCurrent.2.HoldsOpen ↔ d.HoldsOpen ∧ d.saveSettings.1 ≠ .ok () := by
  rcases closeCurrent_cases d with ⟨hheld, hclose⟩ | ⟨fault, -, hfault, hclose⟩ |
    ⟨-, hsaved, hclose⟩
  · have hnot : ¬d.HoldsOpen := fun hopen => absurd (hopen.held hd) (by rw [hheld]; simp)
    rw [hclose]
    exact iff_of_false hnot fun h => hnot h.1
  · rw [hclose, holdsOpen_congr (window_saveSettings d).2, hfault]
    simp
  · have hplaced := (moves_saveSettings d).preserves (fun _ _ => placed_move) hd
    rw [hclose]
    exact iff_of_false (not_holdsOpen_closeSheet hplaced) fun h => h.2 hsaved

end Desktop

/-! ### Runs -/

namespace Provenance

section Trace

variable (h₀ : Host) (es : List Event)

/-- The event gives up the sheet held: a load or a close, on which saving its settings ends in no
fault. After that its file is closed, also where this fails. -/
def GivesUp (n : ℕ) : Prop :=
  ∃ e, es[n]? = some e ∧ Closes e ∧ (deskAfter h₀ es n).saveSettings.1 = .ok ()

/-- A sheet was shown, and no event has given it up since. -/
def KeepsShown (n : ℕ) : Prop :=
  ∃ m < n, es[m]?.bind (shown (deskAfter h₀ es m)) ≠ none ∧
    ∀ j, m < j → j < n → ¬GivesUp h₀ es j

end Trace

variable {h₀ : Host} {es : List Event} {n : ℕ} {d : Desktop} {e : Event}

theorem deskAfter_backed (n : ℕ) : (deskAfter h₀ es n).Backed :=
  deskAfter_preserves (backed_first h₀) (fun _ now action hd => backed_act hd now action)
    (fun _ _ hd => hd) n

/-- A load that shows no sheet leaves the file under the table as closing leaves it. -/
theorem holdsOpen_load {q : Path} {now : Text} (hd : d.Placed)
    (hs : shown d (.user now (.load q)) = none) :
    (step d (.user now (.load q))).HoldsOpen ↔ d.closeCurrent.2.HoldsOpen := by
  cases ho : d.opening q with
  | none => exact holdsOpen_congr (reports_of_opening_none ho now).1.table
  | some found =>
    -- closing came to its end, and the sheet opened after that is not under the table
    obtain ⟨p, sheet, h⟩ := found
    obtain ⟨d₁, hclose, -⟩ := exists_of_opening ho
    have hplaced : d.closeCurrent.2.Placed :=
      (moves_closeCurrent d).preserves (fun _ _ => placed_move) hd
    have hnone : d.closeCurrent.2.file? = none := by
      refine hplaced.closed ?_
      rw [hclose, held_closeCurrent hclose]
      simp
    obtain ⟨hload, hdots, -, hdue, -⟩ := load_of_opening ho now
    have hsettings : settingsFor p sheet now (d.closeCurrent.2.hold p sheet h).host = none := by
      rw [shown_load ho] at hs
      simpa [hold] using hs
    have hafter : (step d (.user now (.load q))).file? = none := by
      simp only [step, act, hload]
      rcases (showing_of_none hsettings (hold_plain hdots) hdue).1.file with hf | hf
      · exact hf.trans hnone
      · exact hf
    exact iff_of_false (fun hopen => hopen.file?_ne_none hafter)
      fun hopen => hopen.file?_ne_none hnone

/-- **An event that shows no sheet** leaves the file under the table open unless it gives it up. -/
theorem holdsOpen_step (hd : d.Placed) (hs : shown d e = none) :
    (step d e).HoldsOpen ↔ d.HoldsOpen ∧ ¬(Closes e ∧ d.saveSettings.1 = .ok ()) := by
  have hstays : ∀ {d' : Desktop}, ¬Closes e → (d'.HoldsOpen ↔ d.HoldsOpen) →
      (d'.HoldsOpen ↔ d.HoldsOpen ∧ ¬(Closes e ∧ d.saveSettings.1 = .ok ())) :=
    fun hno hsame => hsame.trans (and_iff_left fun h => hno h.1).symm
  have hcloses : ∀ {d' : Desktop}, Closes e → (d'.HoldsOpen ↔ d.closeCurrent.2.HoldsOpen) →
      (d'.HoldsOpen ↔ d.HoldsOpen ∧ ¬(Closes e ∧ d.saveSettings.1 = .ok ())) := by
    intro d' hyes hsame
    rw [hsame, holdsOpen_closeCurrent hd, and_iff_right hyes]
  cases e with
  | outside host => exact hstays (by simp [Closes]) Iff.rfl
  | user now action =>
    cases action with
    | filter text => exact hstays (by simp [Closes]) (holdsOpen_congr (table_setFilter d text))
    | edit row column v role =>
      exact hstays (by simp [Closes]) (holdsOpen_edit d row column v role)
    | save => exact hstays (by simp [Closes]) (holdsOpen_congr (window_saveSettings d).2)
    | close => exact hcloses trivial Iff.rfl
    | load q => exact hcloses trivial (holdsOpen_load hd hs)

/-- **A sheet that is shown** is open under its table. -/
theorem holdsOpen_of_shown {k : Key} {cfg : Members} (hs : shown d e = some (k, cfg)) :
    (step d e).HoldsOpen := by
  obtain ⟨p, sheet, h, ho, rfl⟩ := opened_of_shown hs
  obtain ⟨now, q, rfl, ho⟩ := exists_load_of_opened ho
  obtain ⟨d₁, hclose, -, -, -, hloads⟩ := exists_of_opening ho
  obtain ⟨f, hopened⟩ := SheetFile.opened_of_load hloads
  have hsettings : settingsFor p sheet now (d.closeCurrent.2.hold p sheet h).host = some cfg := by
    rw [shown_load ho] at hs
    simpa [hold] using hs
  obtain ⟨-, ⟨t, hdisplays⟩, -⟩ := showing_of_settings hsettings
  simp only [step, act, (load_of_opening ho now).1]
  exact ⟨t, sheet.lock, hdisplays.table, by rw [hdisplays.source]; rfl,
    by rw [hopened.file]; rfl, hopened.spent⟩

/-- A sheet that is shown was shown before, if the last event shows none. -/
theorem keepsShown_succ_iff (hs : es[n]?.bind (shown (deskAfter h₀ es n)) = none) :
    KeepsShown h₀ es (n + 1) ↔ KeepsShown h₀ es n ∧ ¬GivesUp h₀ es n := by
  constructor
  · rintro ⟨m, hm, hshown, hlater⟩
    have hmn : m < n := by
      refine Nat.lt_of_le_of_ne (Nat.le_of_lt_succ hm) ?_
      rintro rfl
      exact hshown hs
    exact ⟨⟨m, hmn, hshown, fun j hj hjn => hlater j hj (by omega)⟩, hlater n hmn (by omega)⟩
  · rintro ⟨⟨m, hm, hshown, hlater⟩, hlast⟩
    refine ⟨m, by omega, hshown, fun j hj hjn => ?_⟩
    rcases Nat.lt_succ_iff_lt_or_eq.1 hjn with hlt | rfl
    · exact hlater j hj hlt
    · exact hlast

/-- **The file under the table is open** as long as nothing has given it up since it was shown. -/
theorem holdsOpen_iff_keepsShown (n : ℕ) :
    (deskAfter h₀ es n).HoldsOpen ↔ KeepsShown h₀ es n := by
  induction n with
  | zero =>
    rw [show deskAfter h₀ es 0 = { host := h₀ } from stateAfter_zero]
    exact iff_of_false (by rintro ⟨t, l, ht, -⟩; simp at ht)
      (by rintro ⟨m, hm, -⟩; exact absurd hm (Nat.not_lt_zero m))
  | succ n ih =>
    cases he : es[n]? with
    | none =>
      -- the run is over
      have hkeeps : ¬GivesUp h₀ es n := by
        rintro ⟨e, he', -⟩
        exact absurd (he.symm.trans he') (by simp)
      rw [deskAfter_succ_none h₀ he, ih, keepsShown_succ_iff (by rw [he]; rfl), and_iff_left hkeeps]
    | some e =>
      have hgives : GivesUp h₀ es n ↔ Closes e ∧ (deskAfter h₀ es n).saveSettings.1 = .ok () := by
        simp [GivesUp, he]
      cases hshown : shown (deskAfter h₀ es n) e with
      | none =>
        rw [deskAfter_succ h₀ he, holdsOpen_step (deskAfter_placed n) hshown, ih,
          keepsShown_succ_iff (by rw [he]; exact hshown), hgives]
      | some found =>
        obtain ⟨k, cfg⟩ := found
        rw [deskAfter_succ h₀ he]
        refine iff_of_true (holdsOpen_of_shown hshown)
          ⟨n, Nat.lt_succ_self n, ?_, fun j hj hjn => by omega⟩
        simp [he, hshown]

/-- **When the cells that can be edited can be written.** In every run, in which sheets are loaded,
filters set, cells edited, settings saved and sheets closed in any order, under any conditions, and
anything happens to the disk in between, take a table that is on the screen and a value cell of it
that can be edited.

* Behind the table is an open file that may be written exactly if nothing has given the sheet up
  since it was shown.
* If so, no value is refused but because writing it fails, and a number that the store has a slot for
  is accepted exactly if writes do not fail.
* If not, such a number is refused because the file is closed: the edit answers so, or ends in a
  fault where closing the file had failed. Nothing is changed. -/
theorem editable_writable_iff {t : Table} {row : ℤ}
    (ht : (deskAfter h₀ es n).window.table = some t) (heditable : (t.flags row 1).editable = true) :
    (t.IsWritable ↔ KeepsShown h₀ es n) ∧
    (KeepsShown h₀ es n →
      (∀ name x h fault, (Store.setOne t.source name (.float x) h).1 = .error (.file fault) →
        fault = .diskFull ∧ h.conditions.writeFault ≠ none) ∧
      ∀ v, t.planned row v ≠ none → ((deskAfter h₀ es n).edit row 1 v .edit).1 =
        .ok (deskAfter h₀ es n).host.conditions.writeFault.isNone) ∧
    (¬KeepsShown h₀ es n →
      (∀ name x r h, Store.plan t.source.texts name (.float x) = .ok (some r) →
        (Store.setOne t.source name (.float x) h).1 = .error (.file (t.refusal h))) ∧
      ∀ v, t.planned row v ≠ none →
        ((deskAfter h₀ es n).edit row 1 v .edit).1 =
          (if t.refusal (deskAfter h₀ es n).host = .closed then .error (.file .closed)
            else .ok false) ∧
        ((deskAfter h₀ es n).edit row 1 v .edit).2.window = (deskAfter h₀ es n).window ∧
        ((deskAfter h₀ es n).edit row 1 v .edit).2.host.disk = (deskAfter h₀ es n).host.disk) := by
  obtain ⟨-, hrights⟩ := Table.editable_iff.1 heditable
  have hbacked : (deskAfter h₀ es n).Backed := deskAfter_backed n
  have hready : (deskAfter h₀ es n).Ready := deskAfter_ready n
  have hwritable : t.IsWritable ↔ KeepsShown h₀ es n := by
    rw [← holdsOpen_iff_keepsShown]
    constructor
    · rintro ⟨l, hl, hopen, -⟩
      exact ⟨t, l, ht, hl, hopen⟩
    · rintro ⟨t', l, ht', hl, hopen⟩
      obtain rfl : t = t' := Option.some.inj (ht.symm.trans ht')
      obtain ⟨l', hl', hsame⟩ := hbacked t ht
      obtain rfl : l = l' := Option.some.inj (hl.symm.trans hl')
      exact ⟨l, hl, hopen, hsame ▸ hrights⟩
  rw [← hwritable]
  exact ⟨Iff.rfl, hbacked.accepts_of_open hready ht heditable,
    hbacked.refuses_of_closed ht heditable⟩

/-- A sheet is shown. -/
def shownRun : List Event := [loadOf "a.txt"]

/-- While it is held its value can be set. -/
theorem editable_writable_iff_shown : ∃ t,
    (deskAfter threeSheets shownRun 1).window.table = some t ∧
    (t.flags 0 1).editable = true ∧ t.IsWritable ∧
    ((deskAfter threeSheets shownRun 1).edit 0 1 (.text ['5']) .edit).1 = .ok true := by
  have hcell : (deskAfter threeSheets shownRun 1).window.table.map (fun t =>
      ((t.flags 0 1).editable, (t.planned 0 (.text ['5'])).isSome)) = some (true, true) := by
    decide +kernel
  obtain ⟨t, ht, hcell⟩ := Option.map_eq_some_iff.1 hcell
  obtain ⟨heditable, hplanned⟩ := Prod.mk.inj hcell
  have hkeeps : KeepsShown threeSheets shownRun 1 :=
    ⟨0, by decide, by rw [← Option.isSome_iff_ne_none]; decide +kernel, fun j hj hj' => by omega⟩
  have hwrites : (deskAfter threeSheets shownRun 1).host.conditions.writeFault = none := by
    decide +kernel
  obtain ⟨hwritable, hheld, -⟩ := editable_writable_iff ht heditable
  obtain ⟨-, haccepts⟩ := hheld hkeeps
  have haccepted := haccepts _ (Option.isSome_iff_ne_none.1 hplanned)
  rw [hwrites] at haccepted
  exact ⟨t, ht, heditable, hwritable.2 hkeeps, haccepted⟩

/-- Where a text can be flushed neither by the edit nor when the file is closed, closing fails, and
the next edit of the cell ends in a fault. -/
example :
    let full : Host :=
      { threeSheets with conditions := { writeFault := some .flush, closeFails := true } }
    let d := deskAfter full
      [loadOf "a.txt", .user [] (.edit 0 1 (.text ['5']) .edit), .user [] .close] 3
    (d.window.table.map fun t => (t.flags 0 1).editable) = some true ∧
    (d.edit 0 1 (.text ['6']) .edit).1 = .error (.file .closed) := by
  decide +kernel

/-- A sheet is shown, and the load of one that is not there fails. -/
def missingRun : List Event := [loadOf "a.txt", loadOf "missing.txt"]

/-- **A cell that can be edited, over a closed file**: the value is refused. -/
theorem editable_closed : ∃ t, (deskAfter threeSheets missingRun 2).window.table = some t ∧
    (t.flags 0 1).editable = true ∧ ¬t.IsWritable ∧
    (t.planned 0 (.text ['5'])).isSome = true ∧
    ((deskAfter threeSheets missingRun 2).edit 0 1 (.text ['5']) .edit).1 = .ok false := by
  have hcell : (deskAfter threeSheets missingRun 2).window.table.map (fun t =>
      ((t.flags 0 1).editable, t.source.file?.isSome, (t.planned 0 (.text ['5'])).isSome)) =
        some (true, false, true) := by decide +kernel
  obtain ⟨t, ht, hcell⟩ := Option.map_eq_some_iff.1 hcell
  obtain ⟨heditable, hrest⟩ := Prod.mk.inj hcell
  obtain ⟨hclosed, hplanned⟩ := Prod.mk.inj hrest
  refine ⟨t, ht, heditable, ?_, hplanned, by decide +kernel⟩
  rintro ⟨l, hl, ⟨hfile, -⟩, -⟩
  rw [SlotSource.file?_eq, hl, Option.bind_some, hfile] at hclosed
  exact absurd hclosed (by simp)

end Provenance

end EquationSheet
