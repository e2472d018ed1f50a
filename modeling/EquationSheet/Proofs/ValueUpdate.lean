import EquationSheet.Store.Update
import EquationSheet.Proofs.Grammar
import EquationSheet.Proofs.Rendering
import EquationSheet.Proofs.Replacement

/-!
# Setting a value agrees with writing an equation

A store never reads a slot as an equation: it cuts the slot at its equals sign, replaces the number
at the start of the value text and puts the new value text in place of the old one. On the text of
an equation this hits the number alone.

* `entry_shape`: cutting finds the name of the shape, and its numeral and unit as the value text.
* `newValue_shape`, `replaceAll_shape`: only the numeral is replaced.
* `findSlot_of_isFirst`: the slot that is found is the first of its name.
* `setOne_reads_as_ofDisplay`: **the slot is rewritten, and is then read as** the equation with the
  given magnitude.
-/

namespace EquationSheet

open Text

/-! ### The value text of a shape -/

theorem isWhitespace_of_blanks {t : Text} (h : IsRun isBlank t) : IsRun isWhitespace t :=
  h.imp fun _ => isWhitespace_of_isBlank

theorem equals_not_mem_blanks {t : Text} (h : IsRun isBlank t) : '=' ∉ t := fun hmem =>
  absurd (h _ hmem) (by decide)

namespace Equation.Shape

variable (s : Shape) {n : Numeral}

/-- The numeral and the unit, with the blanks between them. -/
def value : Text := s.numeral.text ++ (s.beforeUnit ++ s.symbol)

/-- What stands in front of the equals sign. -/
def left : Text := s.lead ++ (('"' :: (s.name ++ ['"'])) ++ s.beforeEquals)

/-- The same shape with another numeral. -/
def withNumeral (n : Numeral) (hn : n.IsWellFormed) : Shape := { s with numeral := n, isNumeral := hn }

theorem right_eq : s.right = s.value ++ s.trail := by simp [right, value]

theorem text_eq : s.text = s.left ++ '=' :: (s.beforeNumeral ++ (s.value ++ s.trail)) := by
  simp [text, left, right_eq]

theorem value_ne_nil : s.value ≠ [] := by
  simp [value, Numeral.text_ne_nil s.isNumeral.mantissa_ne]

theorem startsOutside_value {p : Char → Bool} (hp : ∀ c, Numeral.isNumeralChar c = true → p c = false) :
    StartsOutside p s.value := Numeral.startsOutside_text s.isNumeral hp

theorem isTrimmed_value : IsTrimmed isWhitespace s.value where
  starts := s.startsOutside_value fun _ => Numeral.isWhitespace_of_isNumeralChar
  ends := by
    intro c hc
    unfold value at hc
    rw [← List.append_assoc, List.getLast?_append_of_ne_nil _ s.isSymbol.1] at hc
    exact isWhitespace_of_isAlphanum (isAlphanum_of_isAlpha (s.isSymbol.2 c (List.mem_of_getLast? hc)))

theorem trim_value : (s.beforeNumeral ++ (s.value ++ s.trail)).trim = s.value :=
  trimBy_margins (isWhitespace_of_blanks s.blank_beforeNumeral) (isWhitespace_of_blanks s.blank_trail)
    s.value_ne_nil s.isTrimmed_value

/-- The quotes are trimmed off a name, and nothing of the name itself. -/
theorem nameOf_left : Store.nameOf s.left = s.name := by
  have hquoted : ('"' :: (s.name ++ ['"'])) ≠ [] := by simp
  have htrimmed : IsTrimmed isWhitespace ('"' :: (s.name ++ ['"'])) := by
    refine ⟨by simp [isWhitespace], fun c hc => ?_⟩
    rw [← List.cons_append, List.getLast?_concat] at hc
    obtain rfl : '"' = c := by simpa using hc
    decide
  have hname : IsTrimmed (· == '"') s.name := by
    refine s.isName.isRun.isTrimmed fun c hc => ?_
    rw [beq_eq_false_iff_ne]
    rintro rfl
    exact absurd hc (by decide)
  have htrim : s.left.trim = '"' :: (s.name ++ ['"']) :=
    trimBy_margins (isWhitespace_of_blanks s.blank_lead) (isWhitespace_of_blanks s.blank_beforeEquals)
      hquoted htrimmed
  have hquotes : trimBy (· == '"') ('"' :: (s.name ++ ['"'])) = s.name :=
    trimBy_margins (a := ['"']) (b := ['"']) (by simp) (by simp) s.isName.ne_nil hname
  unfold Store.nameOf
  rw [htrim, hquotes]
  exact trimBy_of_isTrimmed (s.isName.isRun.isTrimmed fun _ => isWhitespace_of_isAlphanum)

/-- The code points of a value text are those of numerals, blanks and letters. -/
theorem mem_value {c : Char} (h : c ∈ s.value) :
    Numeral.isNumeralChar c = true ∨ isBlank c = true ∨ c.isAlpha = true := by
  unfold value at h
  rcases List.mem_append.1 h with h | h
  · exact .inl (s.isNumeral.isRun_text c h)
  · rcases List.mem_append.1 h with h | h
    · exact .inr (.inl (s.blank_beforeUnit c h))
    · exact .inr (.inr (s.isSymbol.2 c h))

theorem quote_not_mem_value : '"' ∉ s.value := fun h =>
  absurd (s.mem_value h) (by decide)

theorem equals_not_mem_value : '=' ∉ s.value := fun h =>
  absurd (s.mem_value h) (by decide)

theorem equals_not_mem_left : '=' ∉ s.left := by
  have hname : '=' ∉ s.name := fun h => absurd (s.isName.isRun _ h) (by decide)
  simp [left, equals_not_mem_blanks s.blank_lead, equals_not_mem_blanks s.blank_beforeEquals, hname]

theorem equals_not_mem_behind : '=' ∉ s.beforeNumeral ++ (s.value ++ s.trail) := by
  simp [equals_not_mem_blanks s.blank_beforeNumeral, equals_not_mem_blanks s.blank_trail,
    s.equals_not_mem_value]

/-- **Cutting a slot** finds the name of its shape and its value text. -/
theorem entry_shape (index : ℕ) : Store.entry index s.text = .ok (s.name, s.value) := by
  unfold Store.entry Store.split
  rw [s.text_eq, segments_append s.equals_not_mem_left, segments_of_not_mem s.equals_not_mem_behind]
  simp only [Except.map, s.nameOf_left, s.trim_value]

/-! ### Only the numeral is replaced -/

/-- The unit is not touched by reading the numeral in front of it. -/
theorem stops_value : Numeral.Stops (s.beforeUnit ++ s.symbol) := by
  apply Numeral.stops_of_isRun
  rw [isRun_append]
  refine ⟨s.blank_beforeUnit.imp fun c hc => ?_, s.isSymbol.2.imp fun c hc => ?_⟩
  · simp [Numeral.isLetterOrBlank, hc]
  · simp [Numeral.isLetterOrBlank, hc]

theorem openingLength_value : Store.openingLength s.value = 0 := by
  have hblank : StartsOutside isBlank s.value := startsOutside_isBlank_numeral s.isNumeral
  have hskip : s.value.skipBlanks = s.value := dropWhile_of_startsOutside hblank
  unfold Store.openingLength
  split
  · rename_i rest h
    exact absurd (by rw [h]; exact List.mem_cons_self) s.quote_not_mem_value
  · simp only [hskip, Nat.sub_self]

/-- **The number of a value text is replaced** by the new number. -/
theorem newValue_shape {x y : Binary64} (hy : s.numeral.value = .ok y) (hn : n.IsWellFormed)
    (htext : n.text = x.toCompactText) :
    Store.newValue s.value (.float x) = .ok (s.withNumeral n hn).value := by
  have hread : Numeral.read s.value = .ok (y, s.beforeUnit ++ s.symbol) := by
    unfold value
    rw [Numeral.read_append s.isNumeral s.stops_value, hy]
    rfl
  unfold Store.newValue
  simp only [s.openingLength_value, List.drop_zero, hread, List.take_zero, List.nil_append]
  unfold value withNumeral
  simp only [htext, Scalar.numberText, Scalar.textWith]

/-- **The value text is replaced where it stands** and nowhere else, unless it occurs in the
name. -/
theorem replaceAll_shape (hn : n.IsWellFormed) (hname : ¬s.value <:+: s.name) :
    replaceAll s.value (s.withNumeral n hn).value s.text = (s.withNumeral n hn).text := by
  have hblank : StartsOutside isBlank s.value := startsOutside_isBlank_numeral s.isNumeral
  have hbehind : replaceAll s.value (s.withNumeral n hn).value
      (s.beforeNumeral ++ (s.value ++ s.trail)) =
      s.beforeNumeral ++ ((s.withNumeral n hn).value ++ s.trail) := by
    rw [replaceAll_run_append s.blank_beforeNumeral hblank, replaceAll_prefix s.value_ne_nil,
      replaceAll_run s.blank_trail hblank]
  -- the quotes and the equals sign keep the occurrences apart
  unfold text
  rw [replaceAll_append_cons s.quote_not_mem_value, replaceAll_append_cons s.quote_not_mem_value,
    replaceAll_append_cons s.equals_not_mem_value, right_eq, hbehind,
    replaceAll_run s.blank_lead hblank, replaceAll_of_not_infix hname,
    replaceAll_run s.blank_beforeEquals hblank, right_eq]
  rfl

end Equation.Shape

/-! ### The first slot of a name -/

namespace Store

/-- The text in front of the first equals sign. -/
def leftOf (t : Text) : Text := t.takeWhile (· ≠ '=')

/-- The text behind the first equals sign. -/
def rightOf (t : Text) : Text := (t.dropWhile (· ≠ '=')).drop 1

/-- The slot `t` at `i` is the first one whose trimmed name is `name`; every slot before it has an
equals sign, and so a name. -/
structure IsFirst (slots : List Text) (name : Text) (i : ℕ) (t : Text) : Prop where
  slot : slots[i]? = some t
  named : nameOf (leftOf t) = name
  earlier : ∀ j < i, ∀ s, slots[j]? = some s → '=' ∈ s ∧ nameOf (leftOf s) ≠ name

variable {slots : List Text} {name t : Text} {i : ℕ}

theorem eq_leftOf_append (h : '=' ∈ t) : t = leftOf t ++ '=' :: rightOf t := by
  induction t with
  | nil => simp at h
  | cons c t ih =>
    by_cases hc : c = '='
    · simp [leftOf, rightOf, hc]
    · have ht := ih ((List.mem_cons.1 h).resolve_left (Ne.symm hc))
      unfold leftOf rightOf at ht ⊢
      simpa [hc] using ht

theorem equals_not_mem_leftOf : '=' ∉ leftOf t := fun h => by
  simpa using List.mem_takeWhile_imp h

/-- Cutting a slot with an equals sign finds the name in front of it. -/
theorem exists_entry (index : ℕ) (h : '=' ∈ t) : ∃ v, entry index t = .ok (nameOf (leftOf t), v) := by
  unfold entry split
  rw [eq_leftOf_append h, segments_append equals_not_mem_leftOf]
  obtain ⟨value, more, hmore⟩ := List.exists_cons_of_ne_nil (segments_ne_nil '=' (rightOf t))
  rw [hmore, ← eq_leftOf_append h]
  exact ⟨value.trim, rfl⟩

/-- **The slot that is found is the first of its name.** -/
theorem findSlot_of_isFirst {v : Text} (h : IsFirst slots name i t)
    (hentry : ∀ index, entry index t = .ok (name, v)) :
    findSlot slots name = .ok (some ⟨i, t, v⟩) := by
  -- the count of the slots that were passed is not part of what is looked for
  suffices hfrom : ∀ index, findFrom name index slots = .ok (some ⟨index + i, t, v⟩) by
    unfold findSlot
    rw [hfrom 0, Nat.zero_add]
  induction slots generalizing i with
  | nil => exact absurd h.slot (by simp)
  | cons s slots ih =>
    intro index
    cases i with
    | zero =>
      obtain rfl : s = t := by simpa using h.slot
      simp [findFrom, hentry]
    | succ i =>
      obtain ⟨hequals, hne⟩ := h.earlier 0 (Nat.succ_pos i) s rfl
      obtain ⟨value, hvalue⟩ := exists_entry index hequals
      have hrest : IsFirst slots name i t :=
        ⟨h.slot, h.named, fun j hj s hs => h.earlier (j + 1) (Nat.succ_lt_succ hj) s hs⟩
      simp only [findFrom, hvalue, if_neg hne]
      rw [ih hrest (index + 1), Nat.add_right_comm, Nat.add_assoc]

/-! ### Setting a value -/

/-- The rewrite that setting a finite number amounts to, on the text of a shape. -/
theorem plan_shape {s : Equation.Shape} {n : Numeral} {x y : Binary64}
    (hfirst : IsFirst slots name i s.text) (hy : s.numeral.value = .ok y) (hn : n.IsWellFormed)
    (htext : n.text = x.toCompactText) (hx : x.isFinite = true) (hname : s.name = name)
    (hvalue : ¬s.value <:+: name) :
    plan slots name (.float x) = .ok (some ⟨i, s.text, (s.withNumeral n hn).text⟩) := by
  subst hname
  have hfound := findSlot_of_isFirst hfirst s.entry_shape
  have hempty : s.value.isEmpty = false := by simpa using s.value_ne_nil
  unfold plan
  simp only [isAcceptable, hx, Bool.not_true, Bool.false_eq_true, if_false, hfound, rewrite, hempty,
    s.newValue_shape hy hn htext, Except.map, s.replaceAll_shape hn hvalue]

theorem leftOf_append {a b : Text} (h : '=' ∉ a) : leftOf (a ++ '=' :: b) = a := by
  refine takeWhile_run (fun c hc => ?_) (by simp)
  simpa using ne_of_mem_of_not_mem hc h

theorem rightOf_append {a b : Text} (h : '=' ∉ a) : rightOf (a ++ '=' :: b) = b := by
  have hrun : IsRun (fun c => decide (c ≠ '=')) a := fun c hc => by
    simpa using ne_of_mem_of_not_mem hc h
  unfold rightOf
  rw [dropWhile_run hrun (by simp)]
  rfl

/-- **Setting a value agrees with writing an equation.** Let the first slot of a name be an
equation whose value text does not occur in the name. Then a finite number is always set in it, and
the slot is read from then on as the equation with that number as magnitude in its unit: the same
name, unit and value in SI units, bit for bit, or the same refusal of a value that is not finite. -/
theorem setOne_reads_as_ofDisplay {e : Equation} {x : Binary64} (hfirst : IsFirst slots name i t)
    (hparse : Equation.parse t = .ok e) (hx : x.isFinite = true)
    (hvalue : ¬(rightOf t).trim <:+: name) (h : Host) :
    ∃ after : Text,
      setOne (.memory slots false) name (.float x) h =
        (.ok (some ⟨i, t, after⟩, .memory (slots.set i after) false),
          h.log Logger.store Level.info (Rewrite.message name ⟨i, t, after⟩)) ∧
      Equation.parse after = Equation.ofDisplay name x e.unit ∧
      ((e.unit.toSI x).isFinite = false → ∃ error : ParseError,
        Equation.parse after = .error (.parse error) ∧ error.fault.kind = .malformedNumeral) := by
  obtain ⟨s, rfl, hy, -, hunit, -⟩ := Equation.exists_shape_of_parse hparse
  obtain ⟨n, hn, htext, hnx⟩ := Binary64.exists_numeral_toCompactText hx
  have hname : s.name = name := by
    rw [← hfirst.named, s.text_eq, leftOf_append s.equals_not_mem_left, s.nameOf_left]
  have hplan : plan slots name (.float x) = .ok (some ⟨i, s.text, (s.withNumeral n hn).text⟩) := by
    refine plan_shape hfirst hy hn htext hx hname ?_
    rwa [s.text_eq, rightOf_append s.equals_not_mem_left, s.trim_value] at hvalue
  have hlt : i < slots.length := (List.getElem?_eq_some_iff.1 hfirst.slot).1
  have hreads : Equation.parse (s.withNumeral n hn).text = Equation.ofDisplay name x e.unit := by
    have hparsed := Equation.parse_shape (s.withNumeral n hn) hnx
    rw [hparsed, ← hname]
    simp only [Equation.ofTokens, Measure.resolve, Equation.Shape.withNumeral, hunit]
    rfl
  -- the slot is rewritten even if the new value cannot be read
  refine ⟨(s.withNumeral n hn).text, ?_, hreads, fun hinf => ?_⟩
  · unfold setOne
    simp only [SlotSource.texts, hplan, SlotSource.setText, Bool.false_eq_true, if_false, hlt,
      if_true]
  · refine ⟨⟨.infiniteValue name, [], 0⟩, ?_, rfl⟩
    rw [hreads]
    simp [Equation.ofDisplay, Equation.ofSI, hinf, EquationError.ofFault]

/-- A width of one metre, behind a height and in front of another width, is doubled. -/
theorem setOne_reads_as_ofDisplay_width : ∃ after : Text,
    setOne (.memory ["\"h\"=3mm".toList, "\"w\" = 1 m".toList, "\"w\"=5mm".toList] false) ['w']
        (.float (Measure.constant 2 0)) {} =
      (.ok (some ⟨1, "\"w\" = 1 m".toList, after⟩,
        .memory ["\"h\"=3mm".toList, after, "\"w\"=5mm".toList] false),
        Host.log {} Logger.store Level.info
          (Rewrite.message ['w'] ⟨1, "\"w\" = 1 m".toList, after⟩)) ∧
    Equation.parse after = Equation.ofDisplay ['w'] (Measure.constant 2 0) .metre := by
  have hfirst : IsFirst ["\"h\"=3mm".toList, "\"w\" = 1 m".toList, "\"w\"=5mm".toList] ['w'] 1
      "\"w\" = 1 m".toList := by
    refine ⟨rfl, by decide, fun j hj s hs => ?_⟩
    obtain rfl : j = 0 := by omega
    obtain rfl : "\"h\"=3mm".toList = s := by simpa using hs
    decide
  have hparse : Equation.parse "\"w\" = 1 m".toList =
      .ok ⟨['w'], Measure.constant 1 0, .metre, by decide +kernel⟩ := by decide +kernel
  obtain ⟨after, hset, hreads, -⟩ := setOne_reads_as_ofDisplay hfirst hparse
    (x := Measure.constant 2 0) (by decide +kernel) (by rw [← occursIn_iff]; decide) {}
  exact ⟨after, hset, hreads⟩

end Store

end EquationSheet
