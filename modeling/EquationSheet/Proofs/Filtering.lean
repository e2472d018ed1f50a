import EquationSheet.Proofs.Orderly
import EquationSheet.Proofs.Writers

/-!
# Rows that are hidden

A row is hidden or shown by the name it has when the filter is applied. This happens when a sheet is
shown and when another text is written in the filter box. Setting a value can change names, and adds
or drops rows by it, but the filter is not applied then.

* `Desktop.isHidden`: whether a row is hidden, which is what was reported of it last.
* `isHidden_applyFilter`: **applying a filter** judges every row by its name.
* `AppliesAt`, `RenamesAt`: the events that apply the filter, and those that change names without
  it.
* `isHidden_of_applies`, `keepsView_of_not_applies`, `names_of_not_applies`: what one event does to
  the filter, the hidden rows and the names.
* `rows_match_since_filtered`: **which rows match the filter** after any run.
* `filter_left_behind`: a name that is changed by a value leaves the filter behind.
-/

namespace EquationSheet

open Desktop

/-! ### Hidden rows -/

namespace Window

/-- The rows that were hidden or shown, the oldest first. -/
def marks (notices : List Notice) : List (ℕ × Bool) :=
  notices.filterMap fun
    | .row index hidden => some (index, hidden)
    | _ => none

theorem marks_append (notices more : List Notice) :
    marks (notices ++ more) = marks notices ++ marks more := List.filterMap_append

/-- A filter marks each row by its name. -/
theorem lookup_marks_filterNotices (filter : Text) (names : List Text) (i r : ℕ) :
    (marks (filterNotices filter i names)).reverse.lookup r =
      if i ≤ r then names[r - i]?.map (hides filter) else none := by
  induction names generalizing i with
  | nil => simp [filterNotices, marks]
  | cons name names ih =>
    have hmarks : marks (filterNotices filter i (name :: names)) =
        (i, hides filter name) :: marks (filterNotices filter (i + 1) names) := rfl
    rw [hmarks, List.reverse_cons, List.lookup_append, ih]
    obtain hlt | rfl | hgt := Nat.lt_trichotomy r i
    · rw [if_neg (by omega), if_neg (by omega), List.lookup_cons, beq_false_of_ne (by omega)]
      rfl
    · rw [if_neg (by omega), if_pos le_rfl, List.lookup_cons_self]
      simp
    · rw [if_pos (by omega), if_pos (by omega), List.lookup_cons, beq_false_of_ne (by omega)]
      obtain ⟨k, rfl⟩ : ∃ k, r = i + 1 + k := ⟨r - (i + 1), by omega⟩
      rw [show i + 1 + k - i = k + 1 by omega, Nat.add_sub_cancel_left, List.getElem?_cons_succ]
      simp

end Window

namespace Desktop

variable {d d' d'' : Desktop} {t : Table} {p q : Path} {sheet : SheetFile} {now : Text}

/-- A row is hidden if this was reported of it last. -/
def isHidden (d : Desktop) (r : ℕ) : Bool :=
  ((Window.marks d.window.notices).reverse.lookup r).getD false

/-- How a row is judged by its name. A row that is not there keeps its mark. -/
def judged (names : List Text) (filter : Text) (old : ℕ → Bool) (r : ℕ) : Bool :=
  match names[r]? with
  | some name => Window.hides filter name
  | none => old r

theorem filter_applyFilter (d : Desktop) (filter : Text) :
    (d.applyFilter filter).window.filter = d.window.filter := by
  unfold applyFilter
  split <;> rfl

/-- **Applying a filter** judges every row by its name. -/
theorem isHidden_applyFilter (ht : d.window.table = some t) (filter : Text) (r : ℕ) :
    (d.applyFilter filter).isHidden r = judged t.names filter d.isHidden r := by
  unfold applyFilter
  rw [ht]
  simp only [isHidden, report, Window.marks_append, List.reverse_append, List.lookup_append,
    Window.lookup_marks_filterNotices, Nat.zero_le, if_true, Nat.sub_zero, judged]
  cases t.names[r]? <;> rfl

/-! ### What leaves the view -/

/-- The filter and the hidden rows are the same. -/
structure KeepsView (d d' : Desktop) : Prop where
  filter : d'.window.filter = d.window.filter
  marks : Window.marks d'.window.notices = Window.marks d.window.notices

theorem KeepsView.refl (d : Desktop) : KeepsView d d := ⟨rfl, rfl⟩

theorem KeepsView.trans (h : KeepsView d d') (h' : KeepsView d' d'') : KeepsView d d'' :=
  ⟨h'.filter.trans h.filter, h'.marks.trans h.marks⟩

theorem KeepsView.isHidden (h : KeepsView d d') (r : ℕ) : d'.isHidden r = d.isHidden r := by
  unfold Desktop.isHidden
  rw [h.marks]

/-- What tells of no row hides none. -/
theorem Reports.keepsView (h : Reports d d') : KeepsView d d' := by
  obtain ⟨h, notices, hrows, rfl⟩ := h
  have hnone : Window.marks notices = [] := by
    refine List.filterMap_eq_nil_iff.2 fun notice hmem => ?_
    cases notice with
    | row index hidden => exact absurd hmem (hrows index hidden)
    | _ => rfl
  exact ⟨rfl, by rw [report, Window.marks_append, hnone, List.append_nil]⟩

theorem keepsView_letGo (d : Desktop) (outcome : Except Fault Unit) :
    KeepsView d (d.letGo outcome).2 := by
  cases outcome <;> exact ⟨rfl, rfl⟩

theorem keepsView_closeSheet (d : Desktop) : KeepsView d d.closeSheet.2 := by
  rcases closeSheet_cases d with ⟨sheet, -, hclose⟩ | ⟨t, sheet, -, -, -, hclose⟩ | ⟨-, -, hclose⟩
  · have hview : KeepsView d (d.closeUnshown sheet) := ⟨rfl, rfl⟩
    rw [hclose]
    exact hview.trans (keepsView_letGo _ _)
  · have hview : KeepsView d (d.closeUnder t sheet) := ⟨rfl, rfl⟩
    rw [hclose]
    exact hview.trans (keepsView_letGo _ _)
  · rw [hclose]
    exact keepsView_letGo d _

theorem keepsView_closeCurrent (d : Desktop) : KeepsView d d.closeCurrent.2 := by
  have hsave := (reports_saveSettings d).keepsView
  rcases closeCurrent_cases d with ⟨-, hclose⟩ | ⟨fault, -, -, hclose⟩ | ⟨-, -, hclose⟩
  · rw [hclose]
    exact .refl d
  · rw [hclose]
    exact hsave
  · rw [hclose]
    exact hsave.trans (keepsView_closeSheet _)

theorem keepsView_edit (d : Desktop) (row column : ℤ) (v : Scalar) (role : CellRole) :
    KeepsView d (d.edit row column v role).2 := by
  unfold edit
  cases d.window.table <;> exact ⟨rfl, rfl⟩

/-- A sheet that is opened and not shown. -/
theorem keepsView_showing_of_none (hs : settingsFor p sheet now d.host = none) :
    KeepsView d (d.showing p sheet now).2 := by
  rcases showing_cases_of_none hs with ⟨message, hshowing⟩ | ⟨h, -, hshowing⟩
  · rw [hshowing]
    exact (reports_alert d d.host message).keepsView.trans (keepsView_closeCurrent _)
  · rw [hshowing]
    exact ⟨rfl, rfl⟩

/-- **A sheet that is shown** gets the filter applied. -/
theorem view_showing_of_settings {cfg : Members} (hs : settingsFor p sheet now d.host = some cfg) :
    ∃ names, (d.showing p sheet now).2.names? = some names ∧
      (d.showing p sheet now).2.window.filter = d.window.filter ∧
      ∀ r, (d.showing p sheet now).2.isHidden r = judged names d.window.filter d.isHidden r := by
  obtain ⟨t, h, message, -, -, hshowing⟩ := showing_eq_of_settings hs
  rw [hshowing]
  generalize hshown : (⟨{ d.window with table := some t, held := .shown }, h⟩ : Desktop) = d₁
  have ht : d₁.window.table = some t := by rw [← hshown]
  have hstatus : KeepsView (d₁.applyFilter d.window.filter)
      ((d₁.applyFilter d.window.filter).report [.status message]) :=
    Reports.keepsView ⟨_, _, by simp, rfl⟩
  refine ⟨t.names, ?_, ?_, fun r => ?_⟩
  · simp only [names?, report, table_applyFilter, ht, Option.map_some]
  · rw [hstatus.filter, filter_applyFilter, ← hshown]
  · rw [hstatus.isHidden, isHidden_applyFilter ht, ← hshown]
    rfl

/-! ### Names that are changed -/

/-- **An edit leaves the names**, unless it is an accepted edit of a value. -/
theorem names_set (t : Table) (row column : ℤ) (v : Scalar) (role : CellRole) (h : Host) :
    (t.set row column v role h).1.table.names = t.names ∨
      role = .edit ∧ column = 1 ∧ (t.set row column v role h).1.outcome = .ok true := by
  rcases set_cases t row column v role h with ⟨hrole, hcolumn, name, x, hset⟩ |
    ⟨-, htable | ⟨cfg, -, htable⟩⟩
  · rw [hset]
    rcases (setNumber_cases t name x h).2 with ⟨r, source, -, htable, houtcome⟩ | ⟨-, htable⟩
    · rw [htable, houtcome]
      -- rows that cannot be read again are kept
      unfold Table.reload
      split
      · exact .inl rfl
      · exact .inr ⟨hrole, hcolumn, rfl⟩
    · exact .inl (by rw [htable])
  · exact .inl (by rw [htable])
  · exact .inl (by rw [htable]; rfl)

theorem names_edit (d : Desktop) (now : Text) (row column : ℤ) (v : Scalar) (role : CellRole) :
    (d.edit row column v role).2.names? = d.names? ∨
      role = .edit ∧ column = 1 ∧
        (d.act now (.edit row column v role)).1 = .ok (some true) := by
  unfold act edit
  cases ht : d.window.table with
  | none => exact .inl rfl
  | some t =>
    rcases names_set t row column v role d.host with hnames | ⟨hrole, hcolumn, haccepted⟩
    · exact .inl (by simp [names?, ht, hnames])
    · exact .inr ⟨hrole, hcolumn, by simp only [haccepted]; rfl⟩

theorem table_edit_isSome (d : Desktop) (row column : ℤ) (v : Scalar) (role : CellRole) :
    (d.edit row column v role).2.names?.isSome = d.names?.isSome := by
  unfold edit names?
  cases ht : d.window.table with
  | none => simp [ht]
  | some t => rfl

end Desktop

/-! ### One event -/

namespace Provenance

/-- The event applies the filter: it shows a sheet, or writes another text in the filter box over a
table. -/
def Applies (d : Desktop) : Event → Prop
  | .user _ (.filter t) => t ≠ d.window.filter ∧ d.names?.isSome = true
  | e => shown d e ≠ none

variable {d : Desktop} {e : Event}

theorem shown_of_not_applies (hno : ¬Applies d e) : shown d e = none := by
  by_contra hshown
  refine hno ?_
  unfold Applies
  split
  · exact absurd rfl hshown
  · exact hshown

/-- **An event that applies the filter** judges every row by its name. -/
theorem isHidden_of_applies (happlies : Applies d e) : ∃ names, (step d e).names? = some names ∧
    ∀ r, (step d e).isHidden r = judged names (step d e).window.filter d.isHidden r := by
  unfold Applies at happlies
  split at happlies
  · -- another text in the filter box
    rename_i now text
    obtain ⟨hother, hsome⟩ := happlies
    obtain ⟨names, hnames⟩ := Option.isSome_iff_exists.1 hsome
    obtain ⟨t, ht, rfl⟩ := Option.map_eq_some_iff.1 hnames
    have hwritten :
        (⟨{ d.window with filter := text }, d.host⟩ : Desktop).window.table = some t := ht
    simp only [step, act, setFilter, if_neg hother]
    refine ⟨t.names, ?_, fun r => ?_⟩
    · simp only [names?, table_applyFilter, ht, Option.map_some]
    · rw [filter_applyFilter, isHidden_applyFilter hwritten]
      rfl
  · -- a sheet that is shown: the marks are still those of the sheet before
    obtain ⟨⟨k, cfg⟩, hshown⟩ := Option.ne_none_iff_exists'.1 happlies
    obtain ⟨p, sheet, h, ho, -⟩ := opened_of_shown hshown
    obtain ⟨now, q, rfl, ho⟩ := exists_load_of_opened ho
    have hsome : settingsFor p sheet now h = some cfg := by
      rw [shown_load ho] at hshown
      obtain ⟨cfg', hcfg', hpair⟩ := Option.map_eq_some_iff.1 hshown
      rw [hcfg', (Prod.mk.inj hpair).2]
    have hhold : KeepsView d (d.closeCurrent.2.hold p sheet h) :=
      (keepsView_closeCurrent d).trans ⟨rfl, rfl⟩
    obtain ⟨names, hnames, hfilter, hidden⟩ :=
      view_showing_of_settings (d := d.closeCurrent.2.hold p sheet h) hsome
    simp only [step, act, (load_of_opening ho now).1]
    refine ⟨names, hnames, fun r => ?_⟩
    rw [hidden, hfilter, funext hhold.isHidden]

/-- **An event that does not apply the filter** leaves the filter and the hidden rows. -/
theorem keepsView_of_not_applies (hno : ¬Applies d e) (hsome : d.names?.isSome = true) :
    KeepsView d (step d e) := by
  have hs := shown_of_not_applies hno
  cases e with
  | outside host => exact ⟨rfl, rfl⟩
  | user now action =>
    cases action with
    | filter t =>
      have hsame : t = d.window.filter := by
        by_contra hother
        exact hno ⟨hother, hsome⟩
      simp only [step, act, setFilter, if_pos hsame]
      exact .refl d
    | edit row column v role => exact keepsView_edit d row column v role
    | save => exact (reports_saveSettings d).keepsView
    | close => exact keepsView_closeCurrent d
    | load q =>
      cases ho : d.opening q with
      | none =>
        exact (keepsView_closeCurrent d).trans (reports_of_opening_none ho now).1.keepsView
      | some found =>
        obtain ⟨p, sheet, h⟩ := found
        have hnone : settingsFor p sheet now (d.closeCurrent.2.hold p sheet h).host = none := by
          rw [shown_load ho] at hs
          simpa [hold] using hs
        have hhold : KeepsView d (d.closeCurrent.2.hold p sheet h) :=
          (keepsView_closeCurrent d).trans ⟨rfl, rfl⟩
        simp only [step, act, (load_of_opening ho now).1]
        exact hhold.trans (keepsView_showing_of_none hnone)

/-- **The names are changed without the filter** by accepted edits of values alone. -/
theorem names_of_not_applies (hno : ¬Applies d e) : (step d e).names? = d.names? ∨
    ∃ now row v, e = .user now (.edit row 1 v .edit) ∧
      (d.act now (.edit row 1 v .edit)).1 = .ok (some true) := by
  have hs := shown_of_not_applies hno
  cases e with
  | outside host => exact .inl rfl
  | user now action =>
    by_cases hedit : ∃ row column v role, action = .edit row column v role
    · obtain ⟨row, column, v, role, rfl⟩ := hedit
      rcases names_edit d now row column v role with hsame | ⟨rfl, rfl, haccepted⟩
      · exact .inl hsame
      · exact .inr ⟨now, row, v, rfl, haccepted⟩
    · exact .inl (leaves_of_unshown (fun _ _ _ _ h => hedit ⟨_, _, _, _, h⟩) hs).2

/-- A table stays on the screen, and none comes there without the filter. -/
theorem isSome_of_not_applies (hno : ¬Applies d e) :
    (step d e).names?.isSome = d.names?.isSome := by
  rcases names_of_not_applies hno with hsame | ⟨now, row, v, rfl, -⟩
  · rw [hsame]
  · exact table_edit_isSome d row 1 v .edit

/-! ### Runs -/

section Trace

variable (h₀ : Host) (es : List Event)

/-- The event applies the filter. -/
def AppliesAt (n : ℕ) : Prop := ∃ e, es[n]? = some e ∧ Applies (deskAfter h₀ es n) e

/-- The event is an accepted edit of a value that changes the names. -/
def RenamesAt (n : ℕ) : Prop :=
  ∃ now row v, es[n]? = some (.user now (.edit row 1 v .edit)) ∧
    ((deskAfter h₀ es n).act now (.edit row 1 v .edit)).1 = .ok (some true) ∧
    (deskAfter h₀ es (n + 1)).names? ≠ (deskAfter h₀ es n).names?

/-- The event is the last one of the first `n` that applies the filter. -/
structure FilteredLast (n m : ℕ) : Prop where
  before : m < n
  applies : AppliesAt h₀ es m
  since : ∀ j, m < j → j < n → ¬AppliesAt h₀ es j

end Trace

variable {h₀ : Host} {es : List Event} {n m : ℕ}

/-- **A table that is shown was filtered.** -/
theorem exists_filteredLast (hsome : (deskAfter h₀ es n).names?.isSome = true) :
    ∃ m, FilteredLast h₀ es n m := by
  induction n with
  | zero => exact absurd hsome (by simp [deskAfter, stateAfter_zero, names?])
  | succ n ih =>
    by_cases happlies : AppliesAt h₀ es n
    · exact ⟨n, Nat.lt_succ_self n, happlies, fun j hj hjn => by omega⟩
    · have hbefore : (deskAfter h₀ es n).names?.isSome = true := by
        cases he : es[n]? with
        | none => rwa [deskAfter_succ_none h₀ he] at hsome
        | some e =>
          rwa [deskAfter_succ h₀ he, isSome_of_not_applies fun h => happlies ⟨e, he, h⟩] at hsome
      obtain ⟨m, hlast⟩ := ih hbefore
      refine ⟨m, Nat.lt_succ_of_lt hlast.before, hlast.applies, fun j hj hjn => ?_⟩
      rcases Nat.lt_succ_iff_lt_or_eq.1 hjn with hlt | rfl
      · exact hlast.since j hj hlt
      · exact happlies

/-- **Since the filter was applied** it is the same, and so are the hidden rows. -/
theorem FilteredLast.keepsView (hlast : FilteredLast h₀ es n m) :
    (deskAfter h₀ es n).names?.isSome = true ∧
      KeepsView (deskAfter h₀ es (m + 1)) (deskAfter h₀ es n) := by
  obtain ⟨hbefore, ⟨e, he, happlies⟩, hsince⟩ := hlast
  -- induction on the events since then, none of which applies the filter
  induction n, Nat.succ_le_of_lt hbefore using Nat.le_induction with
  | base =>
    obtain ⟨names, hnames, -⟩ := isHidden_of_applies happlies
    rw [deskAfter_succ h₀ he, hnames]
    exact ⟨rfl, .refl _⟩
  | succ n hmn ih =>
    obtain ⟨hsome, hview⟩ := ih hmn fun j hj hjn => hsince j hj (by omega)
    cases he' : es[n]? with
    | none =>
      rw [deskAfter_succ_none h₀ he']
      exact ⟨hsome, hview⟩
    | some e' =>
      have hno : ¬Applies (deskAfter h₀ es n) e' := fun h => hsince n hmn (Nat.lt_succ_self n)
        ⟨e', he', h⟩
      rw [deskAfter_succ h₀ he', isSome_of_not_applies hno]
      exact ⟨hsome, hview.trans (keepsView_of_not_applies hno hsome)⟩

/-- The names are those to which the filter was applied, if no value has changed them since. -/
theorem FilteredLast.names (hlast : FilteredLast h₀ es n m)
    (hno : ∀ j, m < j → j < n → ¬RenamesAt h₀ es j) :
    (deskAfter h₀ es n).names? = (deskAfter h₀ es (m + 1)).names? := by
  obtain ⟨hbefore, -, hsince⟩ := hlast
  induction n, Nat.succ_le_of_lt hbefore using Nat.le_induction with
  | base => rfl
  | succ n hmn ih =>
    rw [← ih (fun j hj hjn => hno j hj (by omega)) hmn fun j hj hjn => hsince j hj (by omega)]
    cases he : es[n]? with
    | none => rw [deskAfter_succ_none h₀ he]
    | some e =>
      by_contra hchanged
      have happlies : ¬Applies (deskAfter h₀ es n) e := fun h =>
        hsince n hmn (Nat.lt_succ_self n) ⟨e, he, h⟩
      rcases names_of_not_applies happlies with hsame | ⟨now, row, v, rfl, haccepted⟩
      · rw [deskAfter_succ h₀ he] at hchanged
        exact hchanged hsame
      · exact hno n hmn (Nat.lt_succ_self n) ⟨now, row, v, he, haccepted, hchanged⟩

/-- **Which rows match the filter.** In every run, in which sheets are loaded, filters set, cells
edited, settings saved and sheets closed in any order, and anything happens to the disk in between,
take a table that is on the screen. The filter was applied to it, or to what it was then, by some
event, and by none since. A row is hidden as its name at that time is judged by the filter that is
now in the box, and a row that was not there at that time as it was before. So if no accepted edit
of a value has changed the names since, every row is hidden exactly if the filter hides the name it
shows. -/
theorem rows_match_since_filtered {t : Table}
    (ht : (deskAfter h₀ es n).window.table = some t) :
    ∃ m names, FilteredLast h₀ es n m ∧ (deskAfter h₀ es (m + 1)).names? = some names ∧
      (∀ r, (deskAfter h₀ es n).isHidden r =
        judged names (deskAfter h₀ es n).window.filter (deskAfter h₀ es m).isHidden r) ∧
      ((∀ j, m < j → j < n → ¬RenamesAt h₀ es j) → ∀ r name, t.names[r]? = some name →
        (deskAfter h₀ es n).isHidden r =
          Window.hides (deskAfter h₀ es n).window.filter name) := by
  have hnames : (deskAfter h₀ es n).names? = some t.names := by rw [names?, ht]; rfl
  obtain ⟨m, hlast⟩ := exists_filteredLast (n := n) (by rw [hnames]; rfl)
  obtain ⟨-, hview⟩ := hlast.keepsView
  obtain ⟨e, he, happlies⟩ := hlast.applies
  obtain ⟨names, hthen, hidden⟩ := isHidden_of_applies happlies
  rw [← deskAfter_succ h₀ he] at hthen hidden
  have hrows : ∀ r, (deskAfter h₀ es n).isHidden r =
      judged names (deskAfter h₀ es n).window.filter (deskAfter h₀ es m).isHidden r := by
    intro r
    rw [hview.isHidden, hidden, hview.filter]
  refine ⟨m, names, hlast, hthen, hrows, fun hno r name hname => ?_⟩
  obtain rfl : t.names = names := by
    rw [← hlast.names hno, hnames] at hthen
    exact Option.some.inj hthen
  rw [hrows, judged, hname]

/-- A sheet is shown, and filtered for another name. -/
def hidingRun : List Event := [loadOf "a.txt", .user [] (.filter ['Y'])]

/-- Its row is hidden. -/
theorem rows_match_since_filtered_hidden :
    (deskAfter threeSheets hidingRun 2).isHidden 0 = true := by
  have hrow : (deskAfter threeSheets hidingRun 2).window.table.map (·.names[0]?) =
      some (some ['x']) := by decide +kernel
  have hhides : Window.hides (deskAfter threeSheets hidingRun 2).window.filter ['x'] = true := by
    decide +kernel
  obtain ⟨t, ht, hname⟩ := Option.map_eq_some_iff.1 hrow
  obtain ⟨m, names, -, -, -, hmatch⟩ := rows_match_since_filtered ht
  rw [hmatch (fun j hj hj' => ?_) 0 ['x'] hname, hhides]
  rintro ⟨now, row, v, he, -⟩
  obtain rfl : j = 1 := by omega
  simp [hidingRun] at he

/-- A sheet whose variable has its value in its name. -/
def namedByValue : Host where
  disk := { nodes := [(["a.txt".toList], .file (.text "\"w2in\"=2in\n".toList))] }
  directory := ⟨['/'], []⟩

/-- The sheet is shown and filtered for the name, and the value is set to another one. -/
def renamingRun : List Event :=
  [loadOf "a.txt", .user [] (.filter "w2".toList), .user [] (.edit 0 1 (.text ['5']) .edit)]

/-- **A value leaves the filter behind**: the row has another name now, and should be hidden. -/
theorem filter_left_behind :
    (deskAfter namedByValue renamingRun 3).names? = some ["w5in".toList] ∧
    (deskAfter namedByValue renamingRun 3).window.filter = "w2".toList ∧
    Window.hides "w2".toList "w5in".toList = true ∧
    (deskAfter namedByValue renamingRun 3).isHidden 0 = false := by
  decide +kernel

end Provenance

end EquationSheet
