import EquationSheet.Proofs.Rows

/-!
# Two ways to read a sheet agree

A slot can be read as an equation, or cut at its equals sign into a name and a value text. On a
sheet whose slots are all equations the two say the same: the name that trimming leaves is the name
that was scanned, and the value text is a number and a unit that are read back as they stand.

* `reads_of_parse`: what cutting finds in the text of an equation.
* `names_eq`: the names, each once, in the order of their first equations.
* `equationOf_eq`, `getOne_reads`: the first equation of a name, and the value text of the last one.
* `readers_agree`: **all readers agree** where every slot is an equation.
-/

namespace EquationSheet

open Text

/-! ### Tables by name -/

namespace Store

/-- A row that is put into a table adds its name, unless the table has it. -/
theorem names_putRow (row : Text × Text) (table : List (Text × Text)) :
    (putRow row table).map Prod.fst =
      if row.1 ∈ table.map Prod.fst then table.map Prod.fst else table.map Prod.fst ++ [row.1] := by
  induction table with
  | nil => rfl
  | cons r table ih =>
    by_cases hr : r.1 = row.1
    · simp [putRow, hr]
    · have hne : row.1 ≠ r.1 := Ne.symm hr
      rw [putRow, if_neg hr, List.map_cons, ih]
      by_cases hmem : row.1 ∈ table.map Prod.fst
      · rw [if_pos hmem, if_pos (by rw [List.map_cons]; exact List.mem_cons_of_mem _ hmem)]
        rfl
      · rw [if_neg hmem, if_neg (by rw [List.map_cons, List.mem_cons, not_or]; exact ⟨hne, hmem⟩)]
        rfl

/-- Rows that are put into a table add their new names, each once, in the order of first use. -/
theorem names_foldl_putRow (rows table : List (Text × Text)) :
    (rows.foldl (fun table row => putRow row table) table).map Prod.fst =
      table.map Prod.fst ++ ((rows.map Prod.fst).filter (· ∉ table.map Prod.fst)).eraseDups := by
  induction rows generalizing table with
  | nil => simp
  | cons row rows ih =>
    rw [List.foldl_cons, ih, names_putRow, List.map_cons]
    by_cases hmem : row.1 ∈ table.map Prod.fst
    · rw [if_pos hmem, List.filter_cons_of_neg (by simpa using hmem)]
    · rw [if_neg hmem, List.filter_cons_of_pos (by simpa using hmem), List.eraseDups_cons,
        List.append_assoc, List.singleton_append, List.filter_filter]
      congr 3
      apply List.filter_congr
      intro name _
      rw [Bool.eq_iff_iff]
      simp [and_comm]

/-- A look-up in rows made from a list is a search of the list. -/
theorem lookup_map {α : Type} (key value : α → Text) (l : List α) (name : Text) :
    (l.map fun a => (key a, value a)).lookup name = (l.find? (key · = name)).map value := by
  induction l with
  | nil => rfl
  | cons a l ih =>
    rw [List.map_cons, lookup_cons_row, List.find?_cons]
    by_cases h : name = key a
    · simp [h]
    · simp [h, Ne.symm h, ih]

end Store

/-! ### One slot -/

namespace Equation.Shape

/-- A shape without the blanks around its name and its value. -/
def bare (s : Shape) : Shape :=
  { s with lead := [], beforeEquals := [], beforeNumeral := [], trail := [],
           blanks := by simp [s.blank_beforeUnit] }

theorem text_bare (s : Shape) : s.bare.text = '"' :: (s.name ++ '"' :: '=' :: s.value) := by
  simp [bare, text, right, value]

end Equation.Shape

namespace Store

variable {slot : Text} {e : Equation}

/-- **Cutting finds what scanning finds**: the name of the equation, and a value text from which it
can be read again. -/
structure Reads (slot : Text) (e : Equation) : Prop where
  equals : '=' ∈ slot
  row : rowOf slot = (e.name, (rightOf slot).trim)
  parse : Equation.parse slot = .ok e
  again : Equation.parse ('"' :: (e.name ++ '"' :: '=' :: (rightOf slot).trim)) = .ok e

theorem reads_of_parse (h : Equation.parse slot = .ok e) : Reads slot e := by
  obtain ⟨s, rfl, hvalue, hname, -⟩ := Equation.exists_shape_of_parse h
  have hequals : '=' ∈ s.text := by
    rw [s.text_eq]
    simp
  have htrim : (rightOf s.text).trim = s.value := by
    rw [s.text_eq, rightOf_append s.equals_not_mem_left, s.trim_value]
  have hrow : rowOf s.text = (s.name, s.value) := by
    have hentry := entry_of_mem 0 hequals
    rw [s.entry_shape] at hentry
    exact (Except.ok.inj hentry).symm
  refine ⟨hequals, by rw [hrow, hname, htrim], h, ?_⟩
  -- both texts are scanned into the same tokens
  have hparse := Equation.parse_shape s hvalue
  have hbare := Equation.parse_shape s.bare hvalue
  rw [htrim, hname, ← s.text_bare, hbare, ← h, hparse]
  rfl

/-! ### All slots -/

variable {slots : List Text} {eqs : List Equation} {reads : List (Text × Equation)}

/-- The slots of a sheet of equations, each with its equation. -/
theorem exists_reads (h : equations slots = .ok eqs) : ∃ reads : List (Text × Equation),
    slots = reads.map Prod.fst ∧ eqs = reads.map Prod.snd ∧ ∀ r ∈ reads, Reads r.1 r.2 := by
  unfold equations at h
  induction slots generalizing eqs with
  | nil =>
    obtain rfl : [] = eqs := Except.ok.inj h
    exact ⟨[], rfl, rfl, by simp⟩
  | cons slot slots ih =>
    rw [List.mapM_cons] at h
    obtain ⟨e, he, h⟩ := bind_eq_ok.1 h
    obtain ⟨rest, hrest, h⟩ := bind_eq_ok.1 h
    obtain rfl : e :: rest = eqs := Except.ok.inj h
    obtain ⟨reads, rfl, rfl, hreads⟩ := ih hrest
    exact ⟨(slot, e) :: reads, rfl, rfl, List.forall_mem_cons.2 ⟨reads_of_parse he, hreads⟩⟩

section Readers

variable (hreads : ∀ r ∈ reads, Reads r.1 r.2)

include hreads

theorem equals_of_reads : ∀ slot ∈ reads.map Prod.fst, '=' ∈ slot :=
  List.forall_mem_map.2 fun r hr => (hreads r hr).equals

theorem rows_of_reads : (reads.map Prod.fst).map rowOf =
    reads.map fun r => (r.2.name, (rightOf r.1).trim) := by
  rw [List.map_map]
  exact List.map_congr_left fun r hr => (hreads r hr).row

/-- **The names** are those of the equations, each once, in the order of first occurrence. -/
theorem names_eq : names (reads.map Prod.fst) =
    .ok ((reads.map Prod.snd).map Equation.name).eraseDups := by
  have hrows := entries_eq_ok_iff.2 ⟨equals_of_reads hreads, rfl⟩
  have hnames := names_foldl_putRow ((reads.map Prod.fst).map rowOf) []
  rw [rows_of_reads hreads] at hrows hnames
  unfold names
  rw [hrows]
  simp only [Except.map, hnames]
  simp [Function.comp_def]

/-- **The value text of a name** is that of the last slot with an equation of the name. -/
theorem getOne_reads (name : Text) : getOne (reads.map Prod.fst) name =
    .ok ((reads.reverse.find? (·.2.name = name)).map fun r => (rightOf r.1).trim) := by
  have hlookup := lookup_map (fun r : Text × Equation => r.2.name) (fun r => (rightOf r.1).trim)
    reads.reverse name
  rw [getOne_eq (equals_of_reads hreads), rows_of_reads hreads, ← List.map_reverse, hlookup]

/-- The slot of a name that is found is the first one with an equation of the name. -/
theorem exists_findFrom (name : Text) (index : ℕ) : ∃ found,
    findFrom name index (reads.map Prod.fst) = .ok found ∧
      found.map Found.slot = (reads.find? (·.2.name = name)).map Prod.fst := by
  induction reads generalizing index with
  | nil => exact ⟨none, rfl, rfl⟩
  | cons r reads ih =>
    obtain ⟨hr, hrest⟩ := List.forall_mem_cons.1 hreads
    have hentry := entry_of_mem index hr.equals
    rw [hr.row] at hentry
    rw [List.map_cons, findFrom, hentry]
    simp only
    by_cases hname : r.2.name = name
    · rw [if_pos hname, List.find?_cons_of_pos (by simpa using hname)]
      exact ⟨_, rfl, rfl⟩
    · rw [if_neg hname, List.find?_cons_of_neg (by simpa using hname)]
      exact ih hrest (index + 1)

/-- **The equation of a name** is the first one. -/
theorem equationOf_eq (name : Text) : equationOf (reads.map Prod.fst) name =
    .ok ((reads.map Prod.snd).find? (·.name = name)) := by
  obtain ⟨found, hfound, hslot⟩ := exists_findFrom hreads name 0
  have hfind : (reads.map Prod.snd).find? (·.name = name) =
      (reads.find? (·.2.name = name)).map Prod.snd := by
    rw [List.find?_map]
    rfl
  unfold equationOf findSlot
  rw [hfound, hfind]
  cases hfirst : reads.find? (·.2.name = name) with
  | none =>
    rw [hfirst] at hslot
    obtain rfl : found = none := by simpa using hslot
    rfl
  | some r =>
    rw [hfirst] at hslot
    obtain ⟨found, rfl, hfoundSlot⟩ := Option.map_eq_some_iff.1 hslot
    have hparse := (hreads r (List.mem_of_find?_eq_some hfirst)).parse
    simp only [hfoundSlot, hparse]
    rfl

/-- What is looked up under a name is read, behind that name, as its last equation. -/
theorem parse_getOne {name value : Text}
    (h : getOne (reads.map Prod.fst) name = .ok (some value)) :
    ∃ e, (reads.map Prod.snd).reverse.find? (·.name = name) = some e ∧
      Equation.parse ('"' :: (name ++ '"' :: '=' :: value)) = .ok e := by
  rw [getOne_reads hreads, Except.ok.injEq, Option.map_eq_some_iff] at h
  obtain ⟨r, hlast, rfl⟩ := h
  have hmem : r ∈ reads := List.mem_reverse.1 (List.mem_of_find?_eq_some hlast)
  have hname : r.2.name = name := by simpa using List.find?_some hlast
  have hfind : (reads.map Prod.snd).reverse.find? (·.name = name) = some r.2 := by
    rw [← List.map_reverse, List.find?_map]
    exact congrArg (Option.map Prod.snd) hlast
  refine ⟨r.2, hfind, ?_⟩
  rw [← hname]
  exact (hreads r hmem).again

end Readers

/-- **All readers agree where every slot is an equation.** On such a sheet

* all variables can be read, and their names are those of the equations, each once, in the order of
  first occurrence;
* the equation of a name is the first one of the name, and its value text is the trimmed text
  behind the equals sign of the last slot of the name;
* neither is there exactly when the name is not among the names;
* the value text, behind the quoted name and an equals sign, is read as the last equation of the
  name. -/
theorem readers_agree (h : equations slots = .ok eqs) :
    (∃ rows, entries slots = .ok rows) ∧
    names slots = .ok (eqs.map Equation.name).eraseDups ∧
    (∀ name, equationOf slots name = .ok (eqs.find? (·.name = name))) ∧
    (∀ name, getOne slots name =
      .ok (((slots.zip eqs).reverse.find? (·.2.name = name)).map fun r => (rightOf r.1).trim)) ∧
    (∀ name, (equationOf slots name = .ok none ↔ name ∉ (eqs.map Equation.name).eraseDups) ∧
      (getOne slots name = .ok none ↔ name ∉ (eqs.map Equation.name).eraseDups)) ∧
    ∀ name value, getOne slots name = .ok (some value) →
      ∃ e, eqs.reverse.find? (·.name = name) = some e ∧
        Equation.parse ('"' :: (name ++ '"' :: '=' :: value)) = .ok e := by
  obtain ⟨reads, rfl, rfl, hreads⟩ := exists_reads h
  have hzip : (reads.map Prod.fst).zip (reads.map Prod.snd) = reads := by
    rw [List.zip_map', List.map_id'']
    intro r
    rfl
  refine ⟨⟨_, entries_eq_ok_iff.2 ⟨equals_of_reads hreads, rfl⟩⟩, names_eq hreads,
    equationOf_eq hreads, ?_, fun name => ⟨?_, ?_⟩, fun name value => parse_getOne hreads⟩
  · rw [hzip]
    exact getOne_reads hreads
  · rw [equationOf_eq hreads, Except.ok.injEq, List.mem_eraseDups]
    simp
  · rw [getOne_reads hreads, Except.ok.injEq, List.mem_eraseDups]
    simp

/-- A width given twice, with blanks in different places, and a height in between. -/
def twiceWide : List Text := ["\"w\" = 1 mm".toList, "\"h\"=2in".toList, "\t\"w\"= 3\tcm ".toList]

/-- The equation of the width is the first one, and its value text is that of the last one. -/
theorem readers_agree_twice :
    names twiceWide = .ok [['w'], ['h']] ∧
    (equationOf twiceWide ['w']).map (Option.map Equation.unit) = .ok (some .millimetre) ∧
    getOne twiceWide ['w'] = .ok (some "3\tcm".toList) ∧
    ∃ e, Equation.parse "\"w\"=3\tcm".toList = .ok e ∧ e.unit = .centimetre := by
  obtain ⟨eqs, heqs, hnames, hfirst, hlast⟩ : ∃ eqs, equations twiceWide = .ok eqs ∧
      eqs.map Equation.name = [['w'], ['h'], ['w']] ∧
      (eqs.find? (·.name = ['w'])).map Equation.unit = some .millimetre ∧
      (eqs.reverse.find? (·.name = ['w'])).map Equation.unit = some .centimetre := by
    refine ⟨[⟨['w'], Measure.constant 1 (-3), .millimetre, by decide +kernel⟩,
      ⟨['h'], Measure.constant 508 (-4), .inch, by decide +kernel⟩,
      ⟨['w'], Measure.constant 3 (-2), .centimetre, by decide +kernel⟩], ?_⟩
    decide +kernel
  have htext : getOne twiceWide ['w'] = .ok (some "3\tcm".toList) := by decide +kernel
  obtain ⟨-, hall, hof, -, -, hread⟩ := readers_agree heqs
  obtain ⟨e, he, hparse⟩ := hread ['w'] "3\tcm".toList htext
  rw [he, Option.map_some, Option.some.injEq] at hlast
  refine ⟨?_, ?_, htext, e, hparse, hlast⟩
  · rw [hall, hnames]
    rfl
  · rw [hof, Except.map, hfirst]

end Store

end EquationSheet
