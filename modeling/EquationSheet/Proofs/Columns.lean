import EquationSheet.Proofs.Agreement
import EquationSheet.Proofs.Coherence
import EquationSheet.Proofs.Comments

/-!
# The columns of a row

The value text of a row comes from the last slot of its name, and its SI value from the first one,
which is read as an equation each time the cell is looked at. The two are one slot unless the name
is repeated, and only then can a row contradict itself.

* `IsLast`, `isLast_of_row`, `exists_isFirst`: the slots that a row is made of.
* `rows_step`: after any call the rows are those of the slots.
* `equationOf_first`, `parse_assign`: what the first slot is read as.
* `row_describes_iff`: **when the columns of a row describe one equation**.
* `columns_disagree`: a name given twice makes them describe two.
-/

namespace EquationSheet

open Text

/-- The SI value of an equation as it is shown. -/
def Equation.siText (e : Equation) : Text := e.value.toCompactText ++ ' ' :: e.category.siSymbol

theorem Equation.siText_ne_nil (e : Equation) : e.siText ≠ [] := by simp [siText]

namespace Store

variable {slots : List Text} {name value t : Text} {i : ℕ} {rows : List (Text × Text)}

/-- A value text behind the quoted name and an equals sign. -/
def assign (name value : Text) : Text := '"' :: (name ++ '"' :: '=' :: value)

/-- The slot `t` at `i` is the last one whose trimmed name is `name`. -/
structure IsLast (slots : List Text) (name : Text) (i : ℕ) (t : Text) : Prop where
  slot : slots[i]? = some t
  named : nameOf (leftOf t) = name
  later : ∀ j, i < j → ∀ s, slots[j]? = some s → nameOf (leftOf s) ≠ name

/-! ### The two slots of a row -/

/-- A name that some slot has, one slot has first. -/
theorem exists_isFirst (hall : ∀ slot ∈ slots, '=' ∈ slot)
    (hsome : ∃ slot ∈ slots, nameOf (leftOf slot) = name) : ∃ i t, IsFirst slots name i t := by
  induction slots with
  | nil => simp at hsome
  | cons s slots ih =>
    obtain ⟨hequals, hall⟩ := List.forall_mem_cons.1 hall
    by_cases hname : nameOf (leftOf s) = name
    · exact ⟨0, s, rfl, hname, fun j hj => absurd hj (Nat.not_lt_zero j)⟩
    · obtain ⟨slot, hmem, hslot⟩ := hsome
      have hrest : slot ∈ slots := (List.mem_cons.1 hmem).resolve_left fun h => hname (h ▸ hslot)
      obtain ⟨i, t, hfirst⟩ := ih hall ⟨slot, hrest, hslot⟩
      refine ⟨i + 1, t, hfirst.slot, hfirst.named, fun j hj s' hs' => ?_⟩
      cases j with
      | zero =>
        obtain rfl : s = s' := by simpa using hs'
        exact ⟨hequals, hname⟩
      | succ j => exact hfirst.earlier j (by omega) s' hs'

/-- What is looked up from the end is the row of the last slot of the name. -/
theorem exists_isLast (h : (slots.map rowOf).reverse.lookup name = some value) :
    ∃ i t, IsLast slots name i t ∧ value = valueOf t := by
  obtain ⟨behind, before, hrows, hbehind⟩ := List.lookup_eq_some_iff.1 h
  have hsplit : slots.map rowOf = before.reverse ++ (name, value) :: behind.reverse := by
    rw [← List.reverse_reverse (slots.map rowOf), hrows]
    simp
  obtain ⟨earlier, rest, rfl, -, hrest⟩ := List.map_eq_append_iff.1 hsplit
  obtain ⟨t, later, rfl, hrow, hlater⟩ := List.map_eq_cons_iff.1 hrest
  obtain ⟨hname, hvalue⟩ := Prod.mk.inj hrow
  refine ⟨earlier.length, t, ⟨by simp, hname, fun j hj s hs => ?_⟩, hvalue.symm⟩
  -- a slot behind it has a row that was passed
  have hmem : s ∈ later := by
    obtain ⟨k, rfl⟩ : ∃ k, j = earlier.length + (k + 1) := ⟨j - earlier.length - 1, by omega⟩
    rw [List.getElem?_append_right (by omega), Nat.add_sub_cancel_left,
      List.getElem?_cons_succ] at hs
    exact List.mem_of_getElem? hs
  have hpassed : rowOf s ∈ behind := by
    rw [← List.mem_reverse, ← hlater]
    exact List.mem_map_of_mem hmem
  have hne : name ≠ (rowOf s).1 := by simpa using hbehind _ hpassed
  exact hne.symm

/-- Putting a row into a table keeps its names apart. -/
theorem nodup_putRow {row : Text × Text} {table : List (Text × Text)}
    (h : (table.map Prod.fst).Nodup) : ((putRow row table).map Prod.fst).Nodup := by
  rw [names_putRow]
  split
  · exact h
  · rename_i hnew
    exact List.nodup_append.2 ⟨h, List.nodup_singleton _, by
      rintro a ha b hb rfl
      exact hnew (List.mem_singleton.1 hb ▸ ha)⟩

/-- Each name has one row. -/
theorem nodup_entries (h : entries slots = .ok rows) : (rows.map Prod.fst).Nodup := by
  rw [(entries_eq_ok_iff.1 h).2]
  exact List.foldlRecOn (motive := fun table : List (Text × Text) => (table.map Prod.fst).Nodup) _ _
    List.nodup_nil fun _ htable _ _ => nodup_putRow htable

/-- **A row is that of the last slot of its name.** -/
theorem isLast_of_row (h : entries slots = .ok rows) (hrow : (name, value) ∈ rows) :
    ∃ i t, IsLast slots name i t ∧ value = valueOf t := by
  -- the names are apart, so the row is the one that is found by its name
  have hlookup : rows.lookup name = some value := by
    obtain ⟨before, behind, rfl⟩ := List.append_of_mem hrow
    have hnodup := nodup_entries h
    refine List.lookup_eq_some_iff.2 ⟨before, behind, rfl, fun row hmem => ?_⟩
    rw [List.map_append, List.map_cons] at hnodup
    have hne := (List.nodup_append.1 hnodup).2.2 row.1 (List.mem_map_of_mem hmem) name
      List.mem_cons_self
    simpa using Ne.symm hne
  rw [(entries_eq_ok_iff.1 h).2, lookup_foldl_putRow, List.lookup_nil, Option.or_none] at hlookup
  exact exists_isLast hlookup

/-! ### The first slot -/

/-- **The equation of a name** is what its first slot is read as. -/
theorem equationOf_first (hall : ∀ slot ∈ slots, '=' ∈ slot) (h : IsFirst slots name i t) :
    equationOf slots name = (Equation.parse t).map some := by
  have hequals := hall t (List.mem_of_getElem? h.slot)
  have hentry : ∀ index, entry index t = .ok (name, valueOf t) := fun index => by
    rw [entry_of_mem index hequals, rowOf, h.named]
  unfold equationOf
  rw [findSlot_of_isFirst h hentry]

/-- **A slot that is an equation** is read again from its name and its value text. -/
theorem parse_assign {e : Equation} (h : Equation.parse t = .ok e) :
    Equation.parse (assign (nameOf (leftOf t)) (valueOf t)) = .ok e := by
  have hreads := reads_of_parse h
  obtain ⟨hname, hvalue⟩ := Prod.mk.inj hreads.row
  rw [hname, hvalue]
  exact hreads.again

end Store

namespace Table

variable {t : Table} {name value : Text} {r : ℕ}

open Store

/-! ### Rows after calls -/

/-- The rows are those of the slots. -/
def IsCurrent (t : Table) : Prop := entries t.source.texts = .ok t.rows

/-- Slots that have equals signs are read again. -/
theorem isCurrent_reload (h : ∀ slot ∈ t.source.texts, '=' ∈ slot) : t.reload.2.1.IsCurrent := by
  have hrows := entries_eq_ok_iff.2 ⟨h, rfl⟩
  unfold reload IsCurrent
  simp only [hrows]

theorem isCurrent_setNumber (ht : t.IsCurrent) (name : Text) (x : Binary64) (h : Host) :
    (t.setNumber name x h).1.table.IsCurrent := by
  rcases (Desktop.setNumber_cases t name x h).2 with ⟨r, source, hset, htable, -⟩ | ⟨-, htable⟩
  · obtain ⟨hplan, htexts⟩ := plan_of_setOne hset
    rw [htable]
    refine isCurrent_reload ?_
    rw [show ({ t with source := source } : Table).source = source from rfl, htexts]
    exact equals_of_plan (entries_eq_ok_iff.1 ht).1 hplan
  · rw [htable]
    exact ht

/-- **An edit leaves the rows of the slots**, whatever is entered and whatever the settings hold. -/
theorem isCurrent_set (ht : t.IsCurrent) (row column : ℤ) (v : Scalar) (role : CellRole)
    (h : Host) : (t.set row column v role h).1.table.IsCurrent := by
  rcases Desktop.set_cases t row column v role h with ⟨-, -, name, x, hset⟩ |
    ⟨-, htable | ⟨cfg, -, htable⟩⟩
  · rw [hset]
    exact isCurrent_setNumber ht name x h
  · rw [htable]
    exact ht
  · rw [htable]
    exact ht

theorem isCurrent_step {s : Session} (hs : s.table.IsCurrent) (c : Call) :
    (s.step c).table.IsCurrent := by
  cases c with
  | look row column role => exact hs
  | edit row column v role fault =>
    refine isCurrent_set (t := s.under fault) ?_ row column v role s.host
    unfold IsCurrent Session.under
    rwa [SlotSource.texts_failing]

/-- **After any calls** the rows are those of the slots. -/
theorem isCurrent_run {source : SlotSource} {settings : Members} {readonly : Bool}
    (hnew : create source settings readonly = .ok t) (calls : List Call) (h : Host) (n : ℕ) :
    (stateAfter Session.step ⟨t, h⟩ calls n).table.IsCurrent := by
  obtain ⟨hsource, -, hrows⟩ := Desktop.create_eq hnew
  refine stateAfter_induction (P := fun s : Session => s.table.IsCurrent) ?_
    (fun m c _ hs => isCurrent_step hs c) n
  unfold IsCurrent
  rw [hsource]
  exact hrows

/-! ### The cells of a row -/

/-- The cell of the SI value is empty, or shows the SI value of what the value text is read as
behind the name. -/
def Describes (t : Table) (r : ℕ) (name value : Text) : Prop :=
  ∃ shown, t.cell r 2 .display = .ok (some (textCell shown)) ∧
    (shown = [] ∨ ∃ e, Equation.parse (assign name value) = .ok e ∧ shown = e.siText)

theorem cell_of_row {entry : Text × Text} (hrow : t.rows[r]? = some entry) {c : ℕ} (hc : c < 4) :
    t.cell r c .display = (t.cellOf entry c).map some := by
  have hlt := (List.getElem?_eq_some_iff.1 hrow).1
  have hindex : t.index? r c = some (r, c) := by
    unfold index?
    rw [if_pos ⟨by omega, by omega, by omega, by simpa [columns] using hc⟩]
    simp
  unfold cell
  simp only [hindex, hrow]

/-- The cell of the value shows the value text. -/
theorem cell_value (hrow : t.rows[r]? = some (name, value)) :
    t.cell r 1 .display = .ok (some (textCell value)) := cell_of_row hrow (by decide)

theorem cell_si (hrow : t.rows[r]? = some (name, value)) :
    t.cell r 2 .display = .ok (some (textCell (t.siText name))) := cell_of_row hrow (by decide)

/-- The SI value that is shown is that of the first slot, if this is an equation. -/
theorem siText_first {i : ℕ} {first : Text} (ht : t.IsCurrent)
    (hfirst : IsFirst t.source.texts name i first) :
    (∃ e, Equation.parse first = .ok e ∧ t.siText name = e.siText) ∨
      (∀ e, Equation.parse first ≠ .ok e) ∧ t.siText name = [] := by
  have hequation := equationOf_first (entries_eq_ok_iff.1 ht).1 hfirst
  unfold siText
  rw [hequation]
  cases Equation.parse first with
  | ok e => exact .inl ⟨e, rfl, rfl⟩
  | error fault => exact .inr ⟨by simp, rfl⟩

theorem describes_iff (hrow : t.rows[r]? = some (name, value)) (text : Text) :
    t.Describes r name text ↔ t.siText name = [] ∨
      ∃ e, Equation.parse (assign name text) = .ok e ∧ t.siText name = e.siText := by
  have hcell := cell_si hrow
  constructor
  · rintro ⟨shown, hshown, hdescribes⟩
    have hsame : textCell shown = textCell (t.siText name) := by
      simpa using hshown.symm.trans hcell
    obtain rfl : shown = t.siText name := toUtf16_injective (Json.str.inj hsame)
    exact hdescribes
  · exact fun hdescribes => ⟨_, hcell, hdescribes⟩

/-- **When the columns of a row describe one equation.** Take a table that could be made over some
slots, with any settings, and any calls, in which cells are looked at and edited with any values and
any writes failing. At every moment, for every row of the table:

* its value cell shows the value text of the last slot of its name;
* its SI cell is empty or shows the SI value of the first slot of its name, which is read from the
  name and the value text of that slot;
* if the two are one slot, the SI cell is empty or shows the SI value of the equation that is read
  from the name and the value text of the row;
* in general it does so exactly if the first slot is no equation, or the value texts of the two
  slots are read as equations whose SI values are shown alike. -/
theorem row_describes_iff {source : SlotSource} {settings : Members} {readonly : Bool}
    (hnew : create source settings readonly = .ok t) (calls : List Call) (h : Host) (n : ℕ)
    (hrow : (stateAfter Session.step ⟨t, h⟩ calls n).table.rows[r]? = some (name, value)) :
    ∃ i first j last,
      IsFirst (stateAfter Session.step ⟨t, h⟩ calls n).table.source.texts name i first ∧
      IsLast (stateAfter Session.step ⟨t, h⟩ calls n).table.source.texts name j last ∧
      value = valueOf last ∧
      (stateAfter Session.step ⟨t, h⟩ calls n).table.cell r 1 .display =
        .ok (some (textCell value)) ∧
      (stateAfter Session.step ⟨t, h⟩ calls n).table.Describes r name (valueOf first) ∧
      (i = j → (stateAfter Session.step ⟨t, h⟩ calls n).table.Describes r name value) ∧
      ((stateAfter Session.step ⟨t, h⟩ calls n).table.Describes r name value ↔
        (∀ e, Equation.parse first ≠ .ok e) ∨
        ∃ e e', Equation.parse first = .ok e ∧ Equation.parse (assign name value) = .ok e' ∧
          e.siText = e'.siText) := by
  have hcurrent := isCurrent_run hnew calls h n
  generalize (stateAfter Session.step ⟨t, h⟩ calls n).table = now at hrow hcurrent ⊢
  obtain ⟨j, last, hlast, hvalue⟩ := isLast_of_row hcurrent (List.mem_of_getElem? hrow)
  obtain ⟨i, first, hfirst⟩ := exists_isFirst (entries_eq_ok_iff.1 hcurrent).1
    ⟨last, List.mem_of_getElem? hlast.slot, hlast.named⟩
  have hsi := siText_first hcurrent hfirst
  have hdescribes : now.Describes r name (valueOf first) := by
    rw [describes_iff hrow]
    rcases hsi with ⟨e, he, hshown⟩ | ⟨-, hempty⟩
    · refine .inr ⟨e, ?_, hshown⟩
      rw [← hfirst.named]
      exact parse_assign he
    · exact .inl hempty
  refine ⟨i, first, j, last, hfirst, hlast, hvalue, cell_value hrow, hdescribes,
    fun hsame => ?_, ?_⟩
  · subst hsame
    obtain rfl : first = last := Option.some.inj (hfirst.slot.symm.trans hlast.slot)
    rw [hvalue]
    exact hdescribes
  · rw [describes_iff hrow]
    rcases hsi with ⟨e, he, hshown⟩ | ⟨hno, hempty⟩
    · -- the cell shows the equation of the first slot, and is not empty
      rw [hshown]
      constructor
      · rintro (hnil | ⟨e', he', hsame⟩)
        · exact absurd hnil e.siText_ne_nil
        · exact .inr ⟨e, e', he, he', hsame⟩
      · rintro (hno | ⟨e₁, e', he₁, he', hsame⟩)
        · exact absurd he (hno e)
        · obtain rfl : e = e₁ := Except.ok.inj (he.symm.trans he₁)
          exact .inr ⟨e', he', hsame⟩
    · exact iff_of_true (.inl hempty) (.inl hno)

/-- A width given twice, in two units. -/
def widths : List Text := ["\"w\"=1mm".toList, "\"w\"=2cm".toList]

/-- The first width is set to as much as the last one. -/
def widen : List Call := [.edit 0 1 (.text "20".toList) .edit none]

/-- Two slots of one name may agree: then the row describes one equation. -/
theorem row_describes_iff_alike : ∃ t, create (.memory widths false) [] false = .ok t ∧
    (stateAfter Session.step ⟨t, {}⟩ widen 1).table.rows = [(['w'], "2cm".toList)] ∧
    (stateAfter Session.step ⟨t, {}⟩ widen 1).table.source.texts =
      ["\"w\"=20mm".toList, "\"w\"=2cm".toList] ∧
    (stateAfter Session.step ⟨t, {}⟩ widen 1).table.Describes 0 ['w'] "2cm".toList := by
  obtain ⟨t, hnew⟩ : ∃ t, create (.memory widths false) [] false = .ok t := ⟨_, rfl⟩
  have hstate : (stateAfter Session.step ⟨t, {}⟩ widen 1).table.rows = [(['w'], "2cm".toList)] ∧
      (stateAfter Session.step ⟨t, {}⟩ widen 1).table.source.texts =
        ["\"w\"=20mm".toList, "\"w\"=2cm".toList] := by
    obtain rfl := Except.ok.inj hnew
    decide +kernel
  have hrow : (stateAfter Session.step ⟨t, {}⟩ widen 1).table.rows[0]? =
      some (['w'], "2cm".toList) := by
    rw [hstate.1]
    rfl
  obtain ⟨i, first, j, last, hfirst, -, -, -, -, -, hiff⟩ := row_describes_iff hnew widen {} 1 hrow
  refine ⟨t, hnew, hstate.1, hstate.2, hiff.2 (.inr ?_)⟩
  -- the first slot of the name is the one that was set
  obtain rfl : first = "\"w\"=20mm".toList := by
    rw [hstate.2] at hfirst
    cases i with
    | zero => exact (Option.some.inj hfirst.slot).symm
    | succ i => exact absurd (by decide +kernel) (hfirst.earlier 0 (Nat.succ_pos i) _ rfl).2
  exact ⟨⟨['w'], Measure.constant 2 (-2), .millimetre, by decide +kernel⟩,
    ⟨['w'], Measure.constant 2 (-2), .centimetre, by decide +kernel⟩, by decide +kernel⟩

/-- **The columns of a row may disagree**: the value is that of the last slot of a name that is
given twice, and the SI value that of the first. -/
theorem columns_disagree :
    ∃ t, create (.memory ["\"a\"=1mm".toList, "\"a\"=2mm".toList] false) [] false = .ok t ∧
      t.rows = [(['a'], "2mm".toList)] ∧
      t.cell 0 2 .display = .ok (some (textCell "0.001 m".toList)) ∧
      (Equation.parse (assign ['a'] "2mm".toList)).map Equation.siText = .ok "0.002 m".toList ∧
      ¬ t.Describes 0 ['a'] "2mm".toList := by
  obtain ⟨t, hnew⟩ : ∃ t, create (.memory ["\"a\"=1mm".toList, "\"a\"=2mm".toList] false) [] false =
    .ok t := ⟨_, rfl⟩
  have hrows : t.rows = [(['a'], "2mm".toList)] := by
    obtain rfl := Except.ok.inj hnew
    decide +kernel
  have hsi : t.siText ['a'] = "0.001 m".toList := by
    obtain rfl := Except.ok.inj hnew
    decide +kernel
  have hrow : t.rows[0]? = some (['a'], "2mm".toList) := by rw [hrows]; rfl
  have hparse : (Equation.parse (assign ['a'] "2mm".toList)).map Equation.siText =
      .ok "0.002 m".toList := by decide +kernel
  refine ⟨t, hnew, hrows, by rw [← hsi]; exact cell_si hrow, hparse, fun hdescribes => ?_⟩
  rw [describes_iff hrow, hsi] at hdescribes
  rcases hdescribes with hnil | ⟨e, he, hsame⟩
  · exact absurd hnil (by decide)
  · rw [he, Except.map, ← hsame] at hparse
    exact absurd (Except.ok.inj hparse) (by decide)

end Table

end EquationSheet
