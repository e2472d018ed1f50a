import EquationSheet.Table
import EquationSheet.Proofs.ReadBack
import EquationSheet.Proofs.Traces

/-!
# Tables show what their slots hold

Cells of a table are read and edited in any order. Edits may be refused, and so may the writes they
lead to. The rows stay what the store finds in the slots, because a rewrite, whatever it does to
names and values, leaves every slot its equals sign, so that the rows can be read again.

* `Coherent`: the rows are those of the slots, and the comments are an object.
* `sound_setNumber`: a value is set and the rows are read again, or nothing is changed.
* `sound_set`: **an edit is answered**, with a coherent table or without a trace.
* `coherent_run`: so the rows are those of the slots after any calls.
-/

namespace EquationSheet

open Text

/-- The slots, with writes that fail at a stage, or with none that fail. -/
def SlotSource.failing (s : SlotSource) (fault : Option WriteStage) : SlotSource :=
  match s with
  | .memory slots _ => .memory slots fault.isSome
  | .file sheet => .file { sheet with lock := { sheet.lock with writeFault := fault } }

@[simp] theorem SlotSource.texts_failing (s : SlotSource) (fault : Option WriteStage) :
    (s.failing fault).texts = s.texts := by
  cases s <;> rfl

@[simp] theorem SlotSource.isSpent_failing (s : SlotSource) (fault : Option WriteStage) :
    (s.failing fault).isSpent = s.isSpent := by
  cases s <;> rfl

/-! ### Comments -/

namespace Settings

variable {ms : Members}

/-- The comments, if there are any, are an object. -/
def HasComments (ms : Members) : Prop :=
  ∀ j, ms.get? commentsKey = some j → ∃ comments, j = .obj comments

/-- Settings without comments count as settings with no comment. -/
theorem HasComments.exists_obj (h : HasComments ms) :
    ∃ comments, (ms.get? commentsKey).getD (.obj []) = .obj comments := by
  cases hget : ms.get? commentsKey with
  | none => exact ⟨[], rfl⟩
  | some j => exact h j hget

theorem exists_comment (h : HasComments ms) (name : Text) : ∃ j, comment ms name = .ok j := by
  obtain ⟨comments, hobj⟩ := h.exists_obj
  unfold comment
  rw [hobj]
  exact ⟨_, rfl⟩

theorem exists_setComment (h : HasComments ms) (name t : Text) :
    ∃ ms', setComment ms name t = .ok ms' ∧ HasComments ms' := by
  obtain ⟨comments, hobj⟩ := h.exists_obj
  unfold setComment
  rw [hobj]
  refine ⟨_, rfl, fun j hj => ?_⟩
  rw [Members.get?_put, if_pos rfl] at hj
  exact ⟨_, (Option.some.inj hj).symm⟩

end Settings

namespace Store

/-- A number can always be written, so only the value text can be refused. -/
theorem newValue_cases (value : Text) (x : Binary64) :
    (∃ e, newValue value (.float x) = .error (.equation e)) ∨
      ∃ new, newValue value (.float x) = .ok new := by
  unfold newValue
  simp only
  cases Numeral.read (value.drop (openingLength value)) with
  | error fault => exact .inl ⟨_, rfl⟩
  | ok found => exact .inr ⟨_, rfl⟩

/-- **What the store refuses** to do with a number is a fault of an equation. -/
theorem exists_of_plan_error {slots : List Text} {name : Text} {x : Binary64} {fault : Fault}
    (h : plan slots name (.float x) = .error fault) : ∃ e, fault = .equation e := by
  unfold plan at h
  split at h
  · exact ⟨_, (Except.error.inj h).symm⟩
  split at h
  · exact ⟨_, (Except.error.inj h).symm⟩
  · simp at h
  rename_i found _
  unfold rewrite at h
  split at h
  · exact ⟨_, (Except.error.inj h).symm⟩
  rcases newValue_cases found.value x with ⟨e, he⟩ | ⟨new, hnew⟩
  · rw [he] at h
    exact ⟨e, (Except.error.inj h).symm⟩
  · rw [hnew] at h
    simp [Except.map] at h

end Store

namespace Table

variable {t : Table} {h : Host}

/-- **The rows are those of the slots**, and the comments are an object. The slots are in memory or
in a file that nobody closed. -/
structure Coherent (t : Table) : Prop where
  rows : Store.entries t.source.texts = .ok t.rows
  comments : Settings.HasComments t.settings
  unspent : t.source.isSpent = false

theorem Coherent.equals_mem (ht : t.Coherent) : ∀ slot ∈ t.source.texts, '=' ∈ slot :=
  (Store.entries_eq_ok_iff.1 ht.rows).1

/-- A table that can be made is coherent, if its comments are an object. -/
theorem coherent_create {source : SlotSource} {settings : Members} {readonly : Bool}
    (hnew : create source settings readonly = .ok t) (hcomments : Settings.HasComments settings)
    (hopen : source.isSpent = false) : t.Coherent := by
  unfold create reload at hnew
  cases hrows : Store.entries source.texts with
  | error e => simp [hrows] at hnew
  | ok rows =>
    simp only [hrows, Except.ok.injEq] at hnew
    subst hnew
    exact ⟨hrows, hcomments, hopen⟩

/-! ### Reading a cell -/

theorem exists_cellOf (ht : t.Coherent) (row : Text × Text) (column : ℕ) :
    ∃ j, t.cellOf row column = .ok j := by
  unfold cellOf
  split
  · exact ⟨_, rfl⟩
  · exact ⟨_, rfl⟩
  · exact ⟨_, rfl⟩
  · exact Settings.exists_comment ht.comments row.1

/-- **Every cell can be read.** -/
theorem exists_cell (ht : t.Coherent) (row column : ℤ) (role : CellRole) :
    ∃ cell, t.cell row column role = .ok cell := by
  unfold cell
  cases t.index? row column with
  | none => exact ⟨none, rfl⟩
  | some index =>
    obtain ⟨r, c⟩ := index
    simp only
    split
    · exact ⟨none, rfl⟩
    · exact ⟨none, rfl⟩
    · rename_i entry _ _
      obtain ⟨j, hj⟩ := exists_cellOf ht entry c
      exact ⟨some j, by rw [hj]; rfl⟩

/-! ### Editing a cell -/

/-- The edit was accepted, and has left a coherent table, or it was refused, and has left the table
as it was and told nobody. -/
structure Edited.Sound (t : Table) (edited : Edited) : Prop where
  answered : ∃ accepted, edited.outcome = .ok accepted
  coherent : edited.table.Coherent
  refused : edited.outcome = .ok false → edited.table = t ∧ edited.events = []

theorem sound_refused (ht : t.Coherent) : Edited.Sound t ⟨.ok false, t, []⟩ :=
  ⟨⟨false, rfl⟩, ht, fun _ => ⟨rfl, rfl⟩⟩

theorem sound_accepted {t' : Table} {events : List TableEvent} (ht' : t'.Coherent) :
    Edited.Sound t ⟨.ok true, t', events⟩ :=
  ⟨⟨true, rfl⟩, ht', fun h => absurd h (by simp)⟩

/-- A rewrite leaves slots whose rows can be read again. -/
theorem exists_reload (ht : t.Coherent) {source : SlotSource} {r : Store.Rewrite} {name : Text}
    {v : Scalar} (hplan : Store.plan t.source.texts name v = .ok (some r))
    (htexts : source.texts = t.source.texts.set r.index r.after)
    (hopen : source.isSpent = t.source.isSpent) : ∃ t',
      ({ t with source := source } : Table).reload = (.ok (), t', [.beginReset, .endReset]) ∧
      t'.Coherent := by
  have hequals : ∀ slot ∈ source.texts, '=' ∈ slot := by
    rw [htexts]
    exact Store.equals_of_plan ht.equals_mem hplan
  have hrows := Store.entries_eq_ok_iff.2 ⟨hequals, rfl⟩
  unfold reload
  simp only [hrows]
  exact ⟨_, rfl, hrows, ht.comments, hopen.trans ht.unspent⟩

/-- **A number is set** and the rows are read again, or nothing is changed. -/
theorem sound_setNumber (ht : t.Coherent) (name : Text) (x : Binary64) (h : Host) :
    Edited.Sound t (t.setNumber name x h).1 := by
  have hset := Store.setOne_cases t.source name (.float x) h
  unfold setNumber
  generalize Store.setOne t.source name (.float x) h = out at hset ⊢
  obtain ⟨result, h'⟩ := out
  rcases hset with ⟨fault, hplan, rfl⟩ | ⟨-, rfl⟩ | ⟨r, fault, -, rfl, hclosed⟩ |
    ⟨r, source, hplan, rfl, htexts, hopen⟩
  · obtain ⟨e, rfl⟩ := Store.exists_of_plan_error hplan
    exact sound_refused ht
  · exact sound_refused ht
  · -- the write failed, and not because the file had been closed
    cases fault
    case closed => simp [ht.unspent] at hclosed
    all_goals exact sound_refused ht
  · obtain ⟨t', hreload, ht'⟩ := exists_reload ht hplan htexts hopen
    simp only [hreload]
    exact sound_accepted ht'

/-- The value can be written as a text. -/
def IsRendered (v : Scalar) : Prop := ∃ entered, v.toText = .ok entered

theorem sound_setValue (ht : t.Coherent) (name : Text) {v : Scalar} (hv : IsRendered v) (h : Host) :
    Edited.Sound t (t.setValue name v h).1 := by
  obtain ⟨entered, hentered⟩ := hv
  unfold setValue
  split
  · exact sound_refused ht
  rw [hentered]
  simp only
  cases Numeral.parse entered.trim with
  | ok x => exact sound_setNumber ht name x h
  | error e => exact sound_refused ht

theorem sound_setComment (ht : t.Coherent) (row : ℕ) (name : Text) {v : Scalar}
    (hv : IsRendered v) : Edited.Sound t (t.setComment row name v) := by
  obtain ⟨entered, hentered⟩ := hv
  obtain ⟨settings, hset, hcomments⟩ := Settings.exists_setComment ht.comments name entered
  unfold setComment
  simp only [hentered, hset]
  exact sound_accepted ⟨ht.rows, hcomments, ht.unspent⟩

/-- **Every edit is answered**, with a coherent table or without a trace. -/
theorem sound_set (ht : t.Coherent) (row column : ℤ) {v : Scalar} (hv : IsRendered v)
    (role : CellRole) (h : Host) : Edited.Sound t (t.set row column v role h).1 := by
  unfold set
  split
  · split
    · exact sound_refused ht
    · rename_i name _ _
      split
      · exact sound_setValue ht name hv h
      split
      · exact sound_setComment ht _ name hv
      · exact sound_refused ht
  · exact sound_refused ht

/-! ### Calls -/

/-- What is asked of a table: to look at a cell, or to edit one while writes fail at a stage, or
while none fail. -/
inductive Call
  | look (row column : ℤ) (role : CellRole)
  | edit (row column : ℤ) (v : Scalar) (role : CellRole) (fault : Option WriteStage)

/-- What a table answers: the value of a cell, or whether an edit was accepted, with what it told
those who watch. -/
inductive Answer
  | shown (cell : Option Json)
  | edited (accepted : Bool) (events : List TableEvent)

/-- The value that is entered can be written as a text. -/
def Call.IsRendered : Call → Prop
  | .look .. => True
  | .edit _ _ v _ _ => Table.IsRendered v

/-- A table and the host of its slots. -/
structure Session where
  table : Table
  host : Host

namespace Session

/-- The table while writes fail at a stage. -/
def under (s : Session) (fault : Option WriteStage) : Table :=
  { s.table with source := s.table.source.failing fault }

def answer (s : Session) : Call → Except Fault Answer
  | .look row column role => (s.table.cell row column role).map .shown
  | .edit row column v role fault =>
    let edited := ((s.under fault).set row column v role s.host).1
    edited.outcome.map (.edited · edited.events)

def step (s : Session) : Call → Session
  | .look .. => s
  | .edit row column v role fault =>
    let out := (s.under fault).set row column v role s.host
    ⟨out.1.table, out.2⟩

variable {s : Session}

theorem coherent_under (hs : s.table.Coherent) (fault : Option WriteStage) :
    (s.under fault).Coherent :=
  ⟨by simpa [under] using hs.rows, hs.comments, by simpa [under] using hs.unspent⟩

theorem coherent_step (hs : s.table.Coherent) {c : Call} (hc : c.IsRendered) :
    (s.step c).table.Coherent := by
  cases c with
  | look row column role => exact hs
  | edit row column v role fault =>
    exact (sound_set (coherent_under hs fault) row column hc role s.host).coherent

/-- **Every call is answered**, and an edit that is refused leaves slots, rows and settings as they
were and tells nobody. -/
theorem exists_answer (hs : s.table.Coherent) {c : Call} (hc : c.IsRendered) :
    ∃ a, s.answer c = .ok a ∧ ∀ events, a = .edited false events → events = [] ∧
      (s.step c).table.source.texts = s.table.source.texts ∧
      (s.step c).table.rows = s.table.rows ∧ (s.step c).table.settings = s.table.settings := by
  cases c with
  | look row column role =>
    obtain ⟨cell, hcell⟩ := exists_cell hs row column role
    refine ⟨.shown cell, ?_, by simp⟩
    simp only [answer, hcell]
    rfl
  | edit row column v role fault =>
    have hsound := sound_set (coherent_under hs fault) row column hc role s.host
    obtain ⟨accepted, houtcome⟩ := hsound.answered
    refine ⟨_, by simp only [answer, houtcome]; rfl, fun events hevents => ?_⟩
    obtain ⟨rfl, rfl⟩ := Answer.edited.inj hevents
    obtain ⟨htable, hnone⟩ := hsound.refused houtcome
    have hstep : (s.step (.edit row column v role fault)).table = s.under fault := htable
    rw [hstep]
    exact ⟨hnone, s.table.source.texts_failing fault, rfl, rfl⟩

end Session

/-- **The rows of a table are those of its slots after any calls.** Take a table that could be made
over some slots, in memory or in a file that is open or was given up, with comments that are absent
or an object, and any sequence of calls in which cells are looked at and edited, at any index and in
any role, with values that can be written as texts, and with any writes failing. At every moment the
rows are what the store finds in the slots, in its order; every slot has an equals sign; and the next
call is answered. If it is an edit that is refused, it leaves the slots, the rows and the settings as
they are, and tells nobody. -/
theorem coherent_run {source : SlotSource} {settings : Members} {readonly : Bool}
    (hnew : create source settings readonly = .ok t) (hcomments : Settings.HasComments settings)
    (hopen : source.isSpent = false) {calls : List Call} (hcalls : ∀ c ∈ calls, c.IsRendered)
    (h : Host) (n : ℕ) :
    Store.entries (stateAfter Session.step ⟨t, h⟩ calls n).table.source.texts =
      .ok (stateAfter Session.step ⟨t, h⟩ calls n).table.rows ∧
    (∀ slot ∈ (stateAfter Session.step ⟨t, h⟩ calls n).table.source.texts, '=' ∈ slot) ∧
    ∀ c, calls[n]? = some c →
      ∃ a, (stateAfter Session.step ⟨t, h⟩ calls n).answer c = .ok a ∧
        ∀ events, a = .edited false events → events = [] ∧
          (stateAfter Session.step ⟨t, h⟩ calls (n + 1)).table.source.texts =
            (stateAfter Session.step ⟨t, h⟩ calls n).table.source.texts ∧
          (stateAfter Session.step ⟨t, h⟩ calls (n + 1)).table.rows =
            (stateAfter Session.step ⟨t, h⟩ calls n).table.rows ∧
          (stateAfter Session.step ⟨t, h⟩ calls (n + 1)).table.settings =
            (stateAfter Session.step ⟨t, h⟩ calls n).table.settings := by
  have hcoherent : (stateAfter Session.step ⟨t, h⟩ calls n).table.Coherent := by
    apply stateAfter_induction (P := fun s : Session => s.table.Coherent)
    · exact coherent_create hnew hcomments hopen
    · intro m c hc hs
      exact Session.coherent_step hs (hcalls c (List.mem_of_getElem? hc))
  refine ⟨hcoherent.rows, hcoherent.equals_mem, fun c hc => ?_⟩
  rw [stateAfter_succ hc]
  exact Session.exists_answer hcoherent (hcalls c (List.mem_of_getElem? hc))

/-- A write that fails, and then one that reaches the name as well as the value. -/
def renameCalls : List Call :=
  [.edit 0 1 (.text ['4']) .edit (some .write), .edit 0 1 (.text ['3']) .edit none,
    .edit 0 3 (.text "wide".toList) .edit none, .look 0 2 .display]

/-- The row follows a name that is rewritten. -/
theorem coherent_run_renamed :
    ∃ t, create (.memory ["\"w2in\"=2in".toList] false) [] false = .ok t ∧
      (stateAfter Session.step ⟨t, {}⟩ renameCalls 4).table.source.texts = ["\"w3in\"=3in".toList] ∧
      (stateAfter Session.step ⟨t, {}⟩ renameCalls 4).table.rows =
        [("w3in".toList, "3in".toList)] := by
  obtain ⟨t, hnew⟩ :
      ∃ t, create (.memory ["\"w2in\"=2in".toList] false) [] false = .ok t := ⟨_, rfl⟩
  have hcalls : ∀ c ∈ renameCalls, c.IsRendered := by
    simp [renameCalls, Call.IsRendered, IsRendered, Scalar.toText, Scalar.textWith]
  have htexts : (stateAfter Session.step ⟨t, {}⟩ renameCalls 4).table.source.texts =
      ["\"w3in\"=3in".toList] := by
    obtain rfl := Except.ok.inj hnew
    decide +kernel
  have hcomments : Settings.HasComments [] := fun j hj => absurd hj (by simp [Members.get?])
  have hrows := (coherent_run hnew hcomments rfl hcalls {} 4).1
  rw [htexts] at hrows
  refine ⟨t, hnew, htexts, ?_⟩
  exact Except.ok.inj (hrows.symm.trans (by decide +kernel))

end Table

end EquationSheet
