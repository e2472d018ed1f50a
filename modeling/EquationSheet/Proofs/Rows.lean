import EquationSheet.Proofs.ValueUpdate

/-!
# The rows of slots

Every slot with an equals sign is a row: the name in front of the sign, and the value text behind
it, which ends at the next equals sign. Both ways of looking up go by rows: a table of all variables
keeps the last row of a name, and a single slot is found as the first row of its name.

* `entry_of_mem`, `mem_of_entry`: cutting a slot finds its row, if it has an equals sign.
* `entries_eq_ok_iff`: all variables are read if and only if every slot has an equals sign.
* `getOne_eq`: **the last row of a name** is looked up.
* `isFirst_of_findSlot`, `findSlot_eq_none_iff`: **the first row of a name** is found, if there is
  one.
-/

namespace EquationSheet.Store

open Text

variable {slots : List Text} {t name : Text} {index : ℕ}

/-- The value text of a slot: what stands behind the first equals sign and in front of the next. -/
def valueOf (t : Text) : Text := (leftOf (rightOf t)).trim

/-- The name and the value text of a slot. -/
def rowOf (t : Text) : Text × Text := (nameOf (leftOf t), valueOf t)

theorem leftOf_of_not_mem (h : '=' ∉ t) : leftOf t = t :=
  List.takeWhile_eq_self_iff.2 fun c hc => by simpa using ne_of_mem_of_not_mem hc h

/-- The first piece of a text ends at its first equals sign, or with the text. -/
theorem exists_segments (t : Text) : ∃ more, segments '=' t = leftOf t :: more := by
  by_cases h : '=' ∈ t
  · refine ⟨segments '=' (rightOf t), ?_⟩
    conv_lhs => rw [eq_leftOf_append h]
    exact segments_append equals_not_mem_leftOf
  · exact ⟨[], by rw [segments_of_not_mem h, leftOf_of_not_mem h]⟩

theorem equals_not_mem_valueOf (t : Text) : '=' ∉ valueOf t := fun h =>
  equals_not_mem_leftOf (mem_of_mem_trimBy h)

theorem isTrimmed_valueOf (t : Text) : IsTrimmed isWhitespace (valueOf t) := isTrimmed_trimBy _ _

/-! ### One slot -/

/-- **Cutting a slot** with an equals sign finds its row. -/
theorem entry_of_mem (index : ℕ) (h : '=' ∈ t) : entry index t = .ok (rowOf t) := by
  obtain ⟨more, hmore⟩ := exists_segments (rightOf t)
  have hpieces : segments '=' t = leftOf t :: leftOf (rightOf t) :: more := by
    conv_lhs => rw [eq_leftOf_append h]
    rw [segments_append equals_not_mem_leftOf, hmore]
  unfold entry split
  rw [hpieces]
  rfl

/-- A slot without an equals sign is refused. -/
theorem mem_of_entry {row : Text × Text} (h : entry index t = .ok row) : '=' ∈ t := by
  by_contra hno
  unfold entry split at h
  rw [segments_of_not_mem hno] at h
  simp [Except.map] at h

/-! ### All slots -/

theorem rowsFrom_eq_ok_iff {rows : List (Text × Text)} :
    rowsFrom index slots = .ok rows ↔ (∀ slot ∈ slots, '=' ∈ slot) ∧ rows = slots.map rowOf := by
  induction slots generalizing index rows with
  | nil => simp [rowsFrom, eq_comm]
  | cons slot slots ih =>
    simp only [rowsFrom, bind_eq_ok, ih, pure, Except.pure, Except.ok.injEq]
    constructor
    · rintro ⟨row, hrow, _, ⟨hrest, rfl⟩, rfl⟩
      have hslot := mem_of_entry hrow
      obtain rfl : row = rowOf slot := by simpa [entry_of_mem index hslot] using hrow.symm
      exact ⟨List.forall_mem_cons.2 ⟨hslot, hrest⟩, rfl⟩
    · rintro ⟨hall, rfl⟩
      obtain ⟨hslot, hrest⟩ := List.forall_mem_cons.1 hall
      exact ⟨_, entry_of_mem index hslot, _, ⟨hrest, rfl⟩, rfl⟩

/-- **All variables are read** if and only if every slot has an equals sign. -/
theorem entries_eq_ok_iff {rows : List (Text × Text)} :
    entries slots = .ok rows ↔ (∀ slot ∈ slots, '=' ∈ slot) ∧
      rows = (slots.map rowOf).foldl (fun table row => putRow row table) [] := by
  unfold entries
  cases hrows : rowsFrom 0 slots with
  | ok found =>
    obtain ⟨hall, rfl⟩ := rowsFrom_eq_ok_iff.1 hrows
    simp only [Except.map, Except.ok.injEq, eq_comm (b := rows)]
    exact ⟨fun h => ⟨hall, h⟩, And.right⟩
  | error e =>
    simp only [Except.map, reduceCtorEq, false_iff, not_and]
    intro hall
    rw [rowsFrom_eq_ok_iff.2 ⟨hall, rfl⟩] at hrows
    exact absurd hrows (by simp)

theorem lookup_cons_row (row : Text × Text) (table : List (Text × Text)) (name : Text) :
    (row :: table).lookup name = if name = row.1 then some row.2 else table.lookup name := by
  obtain ⟨key, value⟩ := row
  rw [List.lookup_cons]
  by_cases h : name = key
  · simp [h]
  · simp [h, beq_false_of_ne h]

theorem lookup_putRow (row : Text × Text) (table : List (Text × Text)) (name : Text) :
    (putRow row table).lookup name = if name = row.1 then some row.2 else table.lookup name := by
  induction table with
  | nil => rw [putRow, lookup_cons_row]
  | cons r table ih =>
    by_cases hr : r.1 = row.1
    · -- the row takes the place of the one with its name
      rw [putRow, if_pos hr, lookup_cons_row, lookup_cons_row, hr]
      by_cases h : name = row.1 <;> simp [h]
    · rw [putRow, if_neg hr, lookup_cons_row, lookup_cons_row, ih]
      by_cases h : name = r.1
      · simp [h, hr]
      · simp [h]

/-- Of the rows that are put into a table, the last one of a name stays. -/
theorem lookup_foldl_putRow (rows table : List (Text × Text)) (name : Text) :
    (rows.foldl (fun table row => putRow row table) table).lookup name =
      (rows.reverse.lookup name).or (table.lookup name) := by
  induction rows generalizing table with
  | nil => rfl
  | cons row rows ih =>
    rw [List.foldl_cons, ih, List.reverse_cons, List.lookup_append, lookup_putRow,
      lookup_cons_row, Option.or_assoc]
    by_cases h : name = row.1 <;> simp [h]

/-- **The last row of a name** is looked up. -/
theorem getOne_eq (hall : ∀ slot ∈ slots, '=' ∈ slot) (name : Text) :
    getOne slots name = .ok ((slots.map rowOf).reverse.lookup name) := by
  unfold getOne
  rw [entries_eq_ok_iff.2 ⟨hall, rfl⟩]
  simp only [Except.map, lookup_foldl_putRow, List.lookup_nil, Option.or_none]

/-! ### The slot of a name -/

/-- **The slot that is found is the first of its name**, with its value text. -/
theorem isFirst_of_findSlot {found : Found} (h : findSlot slots name = .ok (some found)) :
    IsFirst slots name found.index found.slot ∧ '=' ∈ found.slot ∧
      found.value = valueOf found.slot := by
  -- the slots that were passed are counted from the index of the first one
  suffices hfrom : ∀ index, findFrom name index slots = .ok (some found) →
      ∃ i, found.index = index + i ∧ IsFirst slots name i found.slot ∧ '=' ∈ found.slot ∧
        found.value = valueOf found.slot by
    obtain ⟨i, hi, hfirst⟩ := hfrom 0 h
    rwa [hi, Nat.zero_add]
  clear h
  induction slots with
  | nil => intro index h; simp [findFrom] at h
  | cons slot slots ih =>
    intro index h
    simp only [findFrom] at h
    split at h
    · simp at h
    rename_i n value hentry
    have hequals := mem_of_entry hentry
    rw [entry_of_mem index hequals, Except.ok.injEq] at hentry
    obtain ⟨rfl, rfl⟩ := Prod.mk.inj hentry
    split at h
    · rename_i hname
      obtain rfl := Option.some.inj (Except.ok.inj h)
      exact ⟨0, rfl, ⟨rfl, hname, by simp⟩, hequals, rfl⟩
    · rename_i hname
      obtain ⟨i, hi, hfirst, hrest⟩ := ih (index + 1) h
      refine ⟨i + 1, by omega, ⟨hfirst.slot, hfirst.named, fun j hj s hs => ?_⟩, hrest⟩
      cases j with
      | zero =>
        obtain rfl : slot = s := by simpa using hs
        exact ⟨hequals, hname⟩
      | succ j => exact hfirst.earlier j (by omega) s hs

/-- **No slot is found** exactly if all have an equals sign and none has the name. -/
theorem findSlot_eq_none_iff : findSlot slots name = .ok none ↔
    ∀ slot ∈ slots, '=' ∈ slot ∧ nameOf (leftOf slot) ≠ name := by
  unfold findSlot
  generalize 0 = index
  induction slots generalizing index with
  | nil => simp [findFrom]
  | cons slot slots ih =>
    rw [List.forall_mem_cons, ← ih (index + 1)]
    by_cases hequals : '=' ∈ slot
    · by_cases hname : nameOf (leftOf slot) = name
      · simp [findFrom, entry_of_mem index hequals, rowOf, hname]
      · simp [findFrom, entry_of_mem index hequals, rowOf, hname, hequals]
    · -- a slot without one is refused
      cases hentry : entry index slot with
      | error e => simp [findFrom, hentry, hequals]
      | ok row => exact absurd (mem_of_entry hentry) hequals

end EquationSheet.Store
