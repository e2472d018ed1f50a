import EquationSheet.Proofs.Rows

/-!
# Slots as independent cells

Slots that are written as equations, each with a name of its own made of letters only, are cells: a
value text holds a digit and so stands in no name, and setting a number changes nothing but the
numeral of its own slot. Any number of assignments leaves every cell with the number that was
assigned to its name last.

* `not_isInfix_name`: a value text does not occur in a name of letters.
* `setOne_cells`: one assignment changes one numeral, or none where no slot has the name.
* `foldl_assign`: what many assignments leave of a cell is what the last one to its name leaves.
* `setAll_cells`: **assignments to cells** overwrite each other by name, in any order.
-/

namespace EquationSheet

open Text

/-! ### The numeral of a number -/

/-- The numeral that a number is written as. -/
def Binary64.numeral (x : Binary64) : Numeral := (Numeral.scan x.toCompactText).1

theorem Binary64.numeral_spec {x : Binary64} (hx : x.isFinite = true) :
    x.numeral.IsWellFormed ∧ x.numeral.text = x.toCompactText ∧ x.numeral.value = .ok x := by
  obtain ⟨n, hn, htext, hvalue⟩ := exists_numeral_toCompactText hx
  have hnumeral : x.numeral = n := by
    rw [numeral, ← htext, Numeral.scan_of_isWellFormed hn]
  rw [hnumeral]
  exact ⟨hn, htext, hvalue⟩

/-- Every numeral has a digit. -/
theorem Numeral.IsWellFormed.exists_digit {n : Numeral} (hn : n.IsWellFormed) :
    ∃ c ∈ n.text, c.isDigit = true := by
  unfold text
  rcases hn.mantissa with hwhole | ⟨ds, hfraction, hds⟩
  · obtain ⟨c, hc⟩ := List.exists_mem_of_ne_nil _ hwhole
    exact ⟨c, by simp [hc], hn.whole c hc⟩
  · obtain ⟨c, hc⟩ := List.exists_mem_of_ne_nil _ hds
    have hdigits := hn.fraction
    unfold fractionDigits at hdigits
    rw [hfraction] at hdigits
    exact ⟨c, by simp [hfraction, fractionText, hc], hdigits c hc⟩

/-! ### Assignments -/

namespace Store

/-- A variable is to be set to a finite number. -/
structure Assignment where
  name : Text
  number : Binary64
  isFinite : number.isFinite = true

/-- Carries assignments out, one after the other, and answers for each of them whether a slot has
the name. One that fails leaves the slots as they are. -/
def setAll (s : SlotSource) (h : Host) : List Assignment → List (Except Fault Bool) × SlotSource
  | [] => ([], s)
  | a :: rest =>
    match setOne s a.name (.float a.number) h with
    | (.error fault, h) => (.error fault :: (setAll s h rest).1, (setAll s h rest).2)
    | (.ok (r, s), h) => (.ok r.isSome :: (setAll s h rest).1, (setAll s h rest).2)

/-- The last assignment to a name. -/
def lastTo (name : Text) (calls : List Assignment) : Option Assignment :=
  (calls.filter (·.name = name)).getLast?

theorem lastTo_concat (name : Text) (calls : List Assignment) (a : Assignment) :
    lastTo name (calls ++ [a]) = if a.name = name then some a else lastTo name calls := by
  unfold lastTo
  by_cases h : a.name = name <;> simp [h]

end Store

namespace Equation.Shape

open Store

variable (s : Shape) (a : Assignment)

/-- The text of a shape with another text in the place of its numeral. -/
def textWith (number : Text) : Text :=
  s.lead ++ '"' :: (s.name ++ '"' :: (s.beforeEquals ++ '=' :: (s.beforeNumeral ++
    (number ++ (s.beforeUnit ++ (s.symbol ++ s.trail))))))

/-- The text of a shape after assignments: only the numeral is another, that of the last number
assigned to the name of the shape. -/
def textAfter (calls : List Assignment) : Text :=
  match lastTo s.name calls with
  | none => s.text
  | some a => s.textWith a.number.toCompactText

/-- What an assignment leaves of a shape. -/
def assign : Shape :=
  if s.name = a.name then s.withNumeral a.number.numeral (Binary64.numeral_spec a.isFinite).1 else s

/-- A cell has a name of letters and a finite number. -/
structure IsCell : Prop where
  letters : IsRun Char.isAlpha s.name
  finite : s.numeral.nearest.isFinite = true

variable {s}

theorem equals_mem_text (s : Shape) : '=' ∈ s.text := by
  rw [s.text_eq]
  simp

theorem text_withNumeral (s : Shape) {n : Numeral} (hn : n.IsWellFormed) :
    (s.withNumeral n hn).text = s.textWith n.text := rfl

theorem nameOf_leftOf_text (s : Shape) : nameOf (leftOf s.text) = s.name := by
  rw [s.text_eq, leftOf_append s.equals_not_mem_left, s.nameOf_left]

/-- **A value text does not occur in a name of letters**, for it has a digit. -/
theorem IsCell.not_isInfix_name (h : s.IsCell) : ¬s.value <:+: s.name := by
  intro hoccurs
  obtain ⟨c, hc, hdigit⟩ := s.isNumeral.exists_digit
  have hvalue : c ∈ s.value := List.mem_append_left _ hc
  have hletter : c.isAlpha = true := h.letters c (hoccurs.subset hvalue)
  rw [isDigit_of_isAlpha hletter] at hdigit
  exact absurd hdigit (by decide)

@[simp] theorem assign_name : (s.assign a).name = s.name := by
  unfold assign
  split <;> rfl

theorem assign_of_name (h : s.name = a.name) : s.assign a =
    s.withNumeral a.number.numeral (Binary64.numeral_spec a.isFinite).1 := if_pos h

theorem assign_of_name_ne (h : s.name ≠ a.name) : s.assign a = s := if_neg h

theorem IsCell.assign (h : s.IsCell) : (s.assign a).IsCell := by
  refine ⟨by rw [assign_name]; exact h.letters, ?_⟩
  by_cases hname : s.name = a.name
  · obtain ⟨-, -, hvalue⟩ := Binary64.numeral_spec a.isFinite
    obtain ⟨-, hnearest, hfinite⟩ := Numeral.value_eq_ok_iff.1 hvalue
    rw [assign_of_name a hname]
    change a.number.numeral.nearest.isFinite = true
    rw [hnearest]
    exact hfinite
  · rw [assign_of_name_ne a hname]
    exact h.finite

/-- **Of many assignments the last one to the name counts.** -/
theorem foldl_assign (s : Shape) (calls : List Assignment) : calls.foldl assign s =
    match lastTo s.name calls with
    | none => s
    | some a => s.withNumeral a.number.numeral (Binary64.numeral_spec a.isFinite).1 := by
  induction calls using List.reverseRecOn with
  | nil => rfl
  | append_singleton calls a ih =>
    have hname : (calls.foldl assign s).name = s.name := by
      rw [ih]
      split <;> rfl
    rw [List.foldl_append, List.foldl_cons, List.foldl_nil, lastTo_concat]
    by_cases h : a.name = s.name
    · -- an earlier numeral is replaced like the first one
      rw [if_pos h, assign_of_name a (hname.trans h.symm), ih]
      split <;> rfl
    · rw [if_neg h, assign_of_name_ne a fun hs => h (hs.symm.trans hname), ih]

theorem text_foldl_assign (s : Shape) (calls : List Assignment) :
    (calls.foldl assign s).text = s.textAfter calls := by
  rw [foldl_assign]
  unfold textAfter
  split
  · rfl
  · rename_i a _
    obtain ⟨hn, htext, -⟩ := Binary64.numeral_spec a.isFinite
    rw [text_withNumeral, htext]

end Equation.Shape

namespace Store

open Equation

variable {shapes : List Shape}

/-- Shapes with different names are told apart by them. -/
theorem index_eq_of_name (hdistinct : (shapes.map Shape.name).Nodup) {i j : ℕ} {s s' : Shape}
    (hs : shapes[i]? = some s) (hs' : shapes[j]? = some s') (hname : s.name = s'.name) : i = j := by
  have hi : i < (shapes.map Shape.name).length := by
    rw [List.length_map]
    exact (List.getElem?_eq_some_iff.1 hs).1
  refine (List.getElem?_inj hi hdistinct).1 ?_
  rw [List.getElem?_map, List.getElem?_map, hs, hs', Option.map_some, Option.map_some, hname]

/-- Where all names are different every slot is the first one of its name. -/
theorem isFirst_of_nodup (hdistinct : (shapes.map Shape.name).Nodup) {i : ℕ} {s : Shape}
    (hs : shapes[i]? = some s) : IsFirst (shapes.map Shape.text) s.name i s.text := by
  refine ⟨by rw [List.getElem?_map, hs]; rfl, s.nameOf_leftOf_text, fun j hj t ht => ?_⟩
  rw [List.getElem?_map, Option.map_eq_some_iff] at ht
  obtain ⟨s', hs', rfl⟩ := ht
  refine ⟨s'.equals_mem_text, fun hname => ?_⟩
  rw [s'.nameOf_leftOf_text] at hname
  have hsame := index_eq_of_name hdistinct hs' hs hname
  omega

/-- Rewriting the one slot of a name is assigning to all cells. -/
theorem set_text_assign (hdistinct : (shapes.map Shape.name).Nodup) {i : ℕ} {s : Shape}
    (hs : shapes[i]? = some s) {a : Assignment} (hname : s.name = a.name) :
    (shapes.map Shape.text).set i (s.assign a).text =
      (shapes.map (Shape.assign · a)).map Shape.text := by
  apply List.ext_getElem?
  intro j
  rw [List.getElem?_set, List.map_map, List.getElem?_map, List.getElem?_map]
  by_cases hij : i = j
  · subst hij
    have hi : i < (shapes.map Shape.text).length := by
      rw [List.length_map]
      exact (List.getElem?_eq_some_iff.1 hs).1
    rw [if_pos rfl, if_pos hi, hs]
    rfl
  · rw [if_neg hij]
    cases hs' : shapes[j]? with
    | none => rfl
    | some s' =>
      have hne : s'.name ≠ a.name := fun h =>
        hij (index_eq_of_name hdistinct hs hs' (hname.trans h.symm))
      simp [Shape.assign_of_name_ne a hne]

/-- **One assignment to cells** changes the numeral of its cell and nothing else. -/
theorem setOne_cells (hcells : ∀ s ∈ shapes, s.IsCell) (hdistinct : (shapes.map Shape.name).Nodup)
    (a : Assignment) (h : Host) :
    ∃ r, (setOne (.memory (shapes.map Shape.text) false) a.name (.float a.number) h).1 =
        .ok (r, .memory ((shapes.map (Shape.assign · a)).map Shape.text) false) ∧
      r.isSome = decide (a.name ∈ shapes.map Shape.name) := by
  unfold setOne
  by_cases hmem : a.name ∈ shapes.map Shape.name
  · obtain ⟨s, hs, hname⟩ := List.mem_map.1 hmem
    obtain ⟨i, hi⟩ := List.mem_iff_getElem?.1 hs
    have hcell := hcells s hs
    have hold : s.numeral.value = .ok s.numeral.nearest := s.isNumeral.value_eq hcell.finite
    obtain ⟨hn, htext, -⟩ := Binary64.numeral_spec a.isFinite
    have hfirst := isFirst_of_nodup hdistinct hi
    rw [hname] at hfirst
    have hplan := plan_shape hfirst hold hn htext a.isFinite hname
      (by rw [← hname]; exact hcell.not_isInfix_name)
    rw [← Shape.assign_of_name a hname] at hplan
    have hlt : i < (shapes.map Shape.text).length := (List.getElem?_eq_some_iff.1 hfirst.slot).1
    refine ⟨some ⟨i, s.text, (s.assign a).text⟩, ?_, by simp [hmem]⟩
    simp only [SlotSource.texts, hplan, SlotSource.setText, Bool.false_eq_true, if_false, hlt,
      if_true]
    rw [set_text_assign hdistinct hi hname]
  · have hne : ∀ s ∈ shapes, s.name ≠ a.name := fun s hs hname =>
      hmem (List.mem_map.2 ⟨s, hs, hname⟩)
    have hfind : findSlot (shapes.map Shape.text) a.name = .ok none := by
      refine findSlot_eq_none_iff.2 (List.forall_mem_map.2 fun s hs => ⟨s.equals_mem_text, ?_⟩)
      rw [s.nameOf_leftOf_text]
      exact hne s hs
    have hplan : plan (shapes.map Shape.text) a.name (.float a.number) = .ok none := by
      simp [plan, isAcceptable, a.isFinite, hfind]
    have hsame : shapes.map (Shape.assign · a) = shapes := by
      conv_rhs => rw [← List.map_id shapes]
      exact List.map_congr_left fun s hs => Shape.assign_of_name_ne a (hne s hs)
    refine ⟨none, ?_, by simp [hmem]⟩
    simp only [SlotSource.texts, hplan, hsame]

/-- The names of cells stay the same. -/
theorem names_assign (shapes : List Shape) (a : Assignment) :
    (shapes.map (Shape.assign · a)).map Shape.name = shapes.map Shape.name := by
  rw [List.map_map]
  exact List.map_congr_left fun s _ => s.assign_name a

/-- Assignments to cells are answered by their names, and carried out in each cell on its own. -/
theorem setAll_eq (hcells : ∀ s ∈ shapes, s.IsCell) (hdistinct : (shapes.map Shape.name).Nodup)
    (calls : List Assignment) (h : Host) :
    setAll (.memory (shapes.map Shape.text) false) h calls =
      (calls.map fun a => .ok (decide (a.name ∈ shapes.map Shape.name)),
        .memory (shapes.map (·.textAfter calls)) false) := by
  -- what the assignments so far have left are cells again, with the same names
  suffices hfold : setAll (.memory (shapes.map Shape.text) false) h calls =
      (calls.map fun a => .ok (decide (a.name ∈ shapes.map Shape.name)),
        .memory ((shapes.map (calls.foldl Shape.assign ·)).map Shape.text) false) by
    rw [hfold, List.map_map]
    simp only [Function.comp_def, Shape.text_foldl_assign]
  induction calls generalizing shapes h with
  | nil => simp [setAll]
  | cons a calls ih =>
    obtain ⟨r, hset, hr⟩ := setOne_cells hcells hdistinct a h
    have hcells' : ∀ s ∈ shapes.map (Shape.assign · a), s.IsCell :=
      List.forall_mem_map.2 fun s hs => (hcells s hs).assign a
    have hdistinct' : ((shapes.map (Shape.assign · a)).map Shape.name).Nodup := by
      rw [names_assign]
      exact hdistinct
    unfold setAll
    generalize setOne (.memory (shapes.map Shape.text) false) a.name (.float a.number) h = out
      at hset ⊢
    obtain ⟨result, h'⟩ := out
    obtain rfl : result = _ := hset
    simp only
    have hmap : (shapes.map (Shape.assign · a)).map (calls.foldl Shape.assign ·) =
        shapes.map ((a :: calls).foldl Shape.assign ·) := by simp
    rw [ih hcells' hdistinct' h', names_assign, hr, hmap]
    rfl

/-- **Assignments to cells.** Let every slot be an equation with a finite number and a name of
letters, and no two of them have one name. Then no assignment fails; each is answered by whether a
slot has its name; and afterwards the slots are the first ones, where in each slot whose name was
assigned to only the numeral is another, that of the last number assigned to the name. So an
assignment overwrites an earlier one to its name, and assignments in another order leave the same
slots, as long as those to one name keep theirs. -/
theorem setAll_cells (hletters : ∀ s ∈ shapes, IsRun Char.isAlpha s.name)
    (hfinite : ∀ s ∈ shapes, s.numeral.nearest.isFinite = true)
    (hdistinct : (shapes.map Shape.name).Nodup) (calls : List Assignment) (h : Host) :
    setAll (.memory (shapes.map Shape.text) false) h calls =
      (calls.map fun a => .ok (decide (a.name ∈ shapes.map Shape.name)),
        .memory (shapes.map (·.textAfter calls)) false) ∧
    (∀ earlier a b later, calls = earlier ++ a :: b :: later → a.name = b.name →
      (setAll (.memory (shapes.map Shape.text) false) h (earlier ++ b :: later)).2 =
        (setAll (.memory (shapes.map Shape.text) false) h calls).2) ∧
    ∀ calls', (∀ name : Text, calls'.filter (·.name = name) = calls.filter (·.name = name)) →
      (setAll (.memory (shapes.map Shape.text) false) h calls').2 =
        (setAll (.memory (shapes.map Shape.text) false) h calls).2 := by
  have hall := setAll_eq (fun s hs => ⟨hletters s hs, hfinite s hs⟩) hdistinct
  -- the slots are seen through the last assignment to each name alone
  have hcongr : ∀ calls', (∀ name, lastTo name calls' = lastTo name calls) →
      (setAll (.memory (shapes.map Shape.text) false) h calls').2 =
        (setAll (.memory (shapes.map Shape.text) false) h calls).2 := by
    intro calls' hlast
    rw [hall calls' h, hall calls h]
    simp only [Shape.textAfter, hlast]
  refine ⟨hall calls h, ?_, ?_⟩
  · rintro earlier a b later rfl hname
    refine hcongr _ fun name => ?_
    unfold lastTo
    by_cases hb : b.name = name
    · simp [List.filter_append, hname, hb, List.getLast?_append, List.getLast?_cons]
    · simp [List.filter_append, hname, hb]
  · intro calls' hfilter
    refine hcongr calls' fun name => ?_
    unfold lastTo
    rw [hfilter name]

/-- A width with blanks and a height without. -/
def sizes : List Shape :=
  [⟨[], ['w'], [' '], [' '], ⟨[], ['1'], some ['5'], none⟩, [' '], ['m', 'm'], [], by simp [IsName],
      ⟨.inl rfl, by simp, by simp [Numeral.fractionDigits], .inl (by simp), by simp⟩,
      by simp [IsSymbol], by simp [isBlank]⟩,
    ⟨[], ['h'], [], [], ⟨[], ['2'], none, none⟩, [], ['i', 'n'], [], by simp [IsName],
      ⟨.inl rfl, by simp, by simp [Numeral.fractionDigits], .inl (by simp), by simp⟩,
      by simp [IsSymbol], by simp⟩]

/-- The height is set twice, the width once, and a depth that is not there not at all. -/
theorem setAll_cells_sizes :
    setAll (.memory ["\"w\" = 1.5 mm".toList, "\"h\"=2in".toList] false) {}
        [⟨['h'], Measure.constant 7 0, by decide +kernel⟩,
          ⟨['w'], Measure.constant 2 0, by decide +kernel⟩,
          ⟨['h'], Measure.constant 1 16, by decide +kernel⟩,
          ⟨['d'], Measure.constant 1 0, by decide +kernel⟩] =
      ([.ok true, .ok true, .ok true, .ok false],
        .memory ["\"w\" = 2 mm".toList, "\"h\"=1e+16in".toList] false) := by
  have hletters : ∀ s ∈ sizes, IsRun Char.isAlpha s.name := by simp [sizes]
  have hfinite : ∀ s ∈ sizes, s.numeral.nearest.isFinite = true := by decide +kernel
  have hdistinct : (sizes.map Shape.name).Nodup := by decide
  have htexts : sizes.map Shape.text = ["\"w\" = 1.5 mm".toList, "\"h\"=2in".toList] := by decide
  obtain ⟨hall, -, -⟩ := setAll_cells hletters hfinite hdistinct
    [⟨['h'], Measure.constant 7 0, by decide +kernel⟩,
      ⟨['w'], Measure.constant 2 0, by decide +kernel⟩,
      ⟨['h'], Measure.constant 1 16, by decide +kernel⟩,
      ⟨['d'], Measure.constant 1 0, by decide +kernel⟩] {}
  rw [htexts] at hall
  rw [hall]
  decide +kernel

end Store

end EquationSheet
