import EquationSheet.Proofs.Handles
import EquationSheet.Proofs.Rows

/-!
# Reading back what was set

Setting a number rewrites the first slot of a name, and looking up reads the last one. Where these
are one slot, and its old value text stands nowhere in front of its equals sign, what is read is the
value text that was written.

* `replaces_of_plan`: the slot that is rewritten, and its new text.
* `setOne_cases`: what setting a value can come to, for slots in memory and in files.
* `valueOf_replaceAll`, `rowOf_after`: a rewrite changes the value text, and keeps the name if it
  spares the left side.
* `getOne_setOne`: **what was set is read back** from the last slot of its name; a later slot of the
  name hides it.
-/

namespace EquationSheet

open Text

/-! ### Carrying a rewrite out -/

theorem position?_natCast {count i : ℕ} (h : i < count) : position? count (i : ℤ) = some i := by
  unfold position?
  rw [if_pos (Int.natCast_nonneg i), Int.toNat_natCast, if_pos h]

/-- Setting a slot that is there is carried out, or refused as a file is. -/
theorem SheetFile.setText_cases (s : SheetFile) {i : ℕ} (t : Text) (h : Host)
    (hi : i < s.slots.length) :
    (s.setText i t h).1 = .ok { s with slots := s.slots.set i t } ∨
      ∃ fault, (s.setText i t h).1 = .error (.file fault) ∧
        (fault = .closed → s.lock.spent = true) := by
  unfold setText
  split
  · exact .inr ⟨_, rfl, by simp⟩
  simp only [position?_natCast hi]
  rcases s.lock.write_cases (Sheet.join (s.slots.set i t)) h with
    ⟨fault, hwrite, hclosed⟩ | ⟨_, -, -, -, ⟨-, hwrite⟩ | ⟨_, -, -, hwrite⟩⟩
  · rw [hwrite]
    exact .inr ⟨fault, rfl, hclosed⟩
  · rw [hwrite]
    exact .inl rfl
  · rw [hwrite]
    exact .inr ⟨_, rfl, by simp⟩

/-- The slots are those of a file that was closed and is held all the same. -/
def SlotSource.isSpent : SlotSource → Bool
  | memory .. => false
  | file sheet => sheet.lock.spent

/-- **Rewriting a slot that is there** changes this slot alone, or is refused as a file is. -/
theorem SlotSource.setText_cases (s : SlotSource) {i : ℕ} (t : Text) (h : Host)
    (hi : i < s.texts.length) :
    (∃ s', (s.setText i t h).1 = .ok s' ∧ s'.texts = s.texts.set i t ∧ s'.isSpent = s.isSpent) ∨
      ∃ fault, (s.setText i t h).1 = .error (.file fault) ∧ (fault = .closed → s.isSpent = true) := by
  cases s with
  | memory slots refuses =>
    simp only [setText]
    split
    · exact .inr ⟨_, rfl, by simp⟩
    · rw [if_pos (by simpa [texts] using hi)]
      exact .inl ⟨_, rfl, rfl, rfl⟩
  | file sheet =>
    have hset := sheet.setText_cases t h hi
    simp only [setText]
    generalize sheet.setText i t h = out at hset ⊢
    obtain ⟨result, h'⟩ := out
    rcases hset with rfl | ⟨fault, rfl, hclosed⟩
    · exact .inl ⟨_, rfl, rfl, rfl⟩
    · exact .inr ⟨fault, rfl, hclosed⟩

namespace Store

variable {slots : List Text} {t name old new : Text} {v : Scalar} {r : Rewrite}

/-- **The rewrite is of the first slot of the name**: its value text is replaced, with its number,
wherever it stands in the slot. -/
structure Rewrite.Replaces (r : Rewrite) (slots : List Text) (name : Text) (v : Scalar)
    (new : Text) : Prop where
  isFirst : IsFirst slots name r.index r.before
  equals : '=' ∈ r.before
  value_ne_nil : valueOf r.before ≠ []
  newValue : newValue (valueOf r.before) v = .ok new
  after : r.after = replaceAll (valueOf r.before) new r.before

theorem Rewrite.Replaces.index_lt (h : r.Replaces slots name v new) : r.index < slots.length :=
  (List.getElem?_eq_some_iff.1 h.isFirst.slot).1

/-- What is planned is such a rewrite. -/
theorem replaces_of_plan (h : plan slots name v = .ok (some r)) :
    isAcceptable v = true ∧ ∃ new, r.Replaces slots name v new := by
  unfold plan at h
  split at h
  · simp at h
  rename_i hok
  split at h
  · simp at h
  · simp at h
  rename_i found hfound
  obtain ⟨hfirst, hequals, hvalue⟩ := isFirst_of_findSlot hfound
  refine ⟨by simpa using hok, ?_⟩
  unfold rewrite at h
  split at h
  · simp [Except.map] at h
  rename_i hne
  cases hnew : newValue found.value v with
  | error fault => rw [hnew] at h; simp [Except.map] at h
  | ok new =>
    rw [hnew] at h
    obtain rfl := Option.some.inj (Except.ok.inj h)
    rw [hvalue] at hne hnew
    exact ⟨new, hfirst, hequals, by simpa using hne, hnew, by rw [hvalue]⟩

/-- The first slot of a name is planned to be rewritten, if it has a number to be replaced. -/
theorem plan_of_isFirst {i : ℕ} (hfirst : IsFirst slots name i t) (hequals : '=' ∈ t)
    (hvalue : valueOf t ≠ []) (hok : isAcceptable v = true) (hnew : newValue (valueOf t) v = .ok new) :
    plan slots name v = .ok (some ⟨i, t, replaceAll (valueOf t) new t⟩) := by
  have hentry : ∀ index, entry index t = .ok (name, valueOf t) := by
    intro index
    rw [entry_of_mem index hequals, rowOf, hfirst.named]
  have hfound := findSlot_of_isFirst hfirst hentry
  unfold plan
  simp only [hok, Bool.not_true, Bool.false_eq_true, if_false, hfound, rewrite,
    List.isEmpty_iff, hvalue, hnew, Except.map]

/-- **What setting a value can come to.** Without a plan nothing is written; a rewrite that was
planned is carried out, or refused as a file is. -/
theorem setOne_cases (s : SlotSource) (name : Text) (v : Scalar) (h : Host) :
    (∃ fault, plan s.texts name v = .error fault ∧ (setOne s name v h).1 = .error fault) ∨
    (plan s.texts name v = .ok none ∧ (setOne s name v h).1 = .ok (none, s)) ∨
    (∃ r fault, plan s.texts name v = .ok (some r) ∧
      (setOne s name v h).1 = .error (.file fault) ∧ (fault = .closed → s.isSpent = true)) ∨
    (∃ r s', plan s.texts name v = .ok (some r) ∧ (setOne s name v h).1 = .ok (some r, s') ∧
      s'.texts = s.texts.set r.index r.after ∧ s'.isSpent = s.isSpent) := by
  unfold setOne
  cases hplan : plan s.texts name v with
  | error fault => exact .inl ⟨fault, rfl, rfl⟩
  | ok planned =>
    cases planned with
    | none => exact .inr (.inl ⟨rfl, rfl⟩)
    | some r =>
      obtain ⟨-, new, hr⟩ := replaces_of_plan hplan
      have hset := s.setText_cases r.after h hr.index_lt
      simp only
      generalize s.setText r.index r.after h = out at hset ⊢
      obtain ⟨result, h'⟩ := out
      rcases hset with ⟨s', rfl, htexts, hspent⟩ | ⟨fault, rfl, hclosed⟩
      · exact .inr (.inr (.inr ⟨r, s', rfl, rfl, htexts, hspent⟩))
      · exact .inr (.inr (.inl ⟨r, fault, rfl, rfl, hclosed⟩))

/-- A value that was set was planned, and its slot alone is rewritten. -/
theorem plan_of_setOne {s s' : SlotSource} {h : Host}
    (hset : (setOne s name v h).1 = .ok (some r, s')) :
    plan s.texts name v = .ok (some r) ∧ s'.texts = s.texts.set r.index r.after := by
  rcases setOne_cases s name v h with ⟨_, -, hout⟩ | ⟨-, hout⟩ | ⟨_, _, -, hout, -⟩ |
    ⟨r', s'', hplan, hout, htexts, -⟩
  · rw [hout] at hset; simp at hset
  · rw [hout] at hset; simp at hset
  · rw [hout] at hset; simp at hset
  · rw [hout] at hset
    obtain ⟨hr, rfl⟩ := Prod.mk.inj (Except.ok.inj hset)
    obtain rfl := Option.some.inj hr
    exact ⟨hplan, htexts⟩

/-! ### The row of a rewritten slot -/

/-- The left side is replaced on its own. -/
theorem leftOf_replaceAll (hold : '=' ∉ old) (hnew : '=' ∉ new) (t : Text) :
    leftOf (replaceAll old new t) = replaceAll old new (leftOf t) := by
  have hno : ∀ a : Text, '=' ∉ a → '=' ∉ replaceAll old new a := fun a ha hmem =>
    (mem_replaceAll hmem).elim hnew ha
  by_cases h : '=' ∈ t
  · conv_lhs => rw [eq_leftOf_append h]
    rw [replaceAll_append_cons hold, leftOf_append (hno _ equals_not_mem_leftOf)]
  · rw [leftOf_of_not_mem h, leftOf_of_not_mem (hno t h)]

/-- Replacing all that is left of a text after trimming leaves its margins. -/
theorem trim_replaceAll (ht : t.trim ≠ []) (hne : new ≠ []) (hnew : IsTrimmed isWhitespace new) :
    (replaceAll t.trim new t).trim = new := by
  obtain ⟨a, b, hmargins, ha, hb⟩ := exists_margins isWhitespace t
  have hstart : StartsOutside isWhitespace t.trim := (isTrimmed_trimBy isWhitespace t).starts
  have hreplaced : replaceAll t.trim new t = a ++ (new ++ b) := by
    conv_lhs => arg 3; rw [hmargins]
    change replaceAll t.trim new (a ++ (t.trim ++ b)) = _
    rw [replaceAll_run_append ha hstart, replaceAll_prefix ht, replaceAll_run hb hstart]
  rw [hreplaced]
  exact trimBy_margins ha hb hne hnew

theorem valueOf_append {a b : Text} (h : '=' ∉ a) : valueOf (a ++ '=' :: b) = (leftOf b).trim := by
  unfold valueOf
  rw [rightOf_append h]

/-- **The new value text takes the place of the old one**, whatever else is replaced in the slot. -/
theorem valueOf_replaceAll (h : '=' ∈ t) (hvalue : valueOf t ≠ []) (hne : new ≠ [])
    (hnew : IsTrimmed isWhitespace new) (hequals : '=' ∉ new) :
    valueOf (replaceAll (valueOf t) new t) = new := by
  have hold : '=' ∉ valueOf t := equals_not_mem_valueOf t
  have hreplaced : replaceAll (valueOf t) new t = replaceAll (valueOf t) new (leftOf t) ++
      '=' :: replaceAll (valueOf t) new (rightOf t) := by
    conv_lhs => arg 3; rw [eq_leftOf_append h]
    rw [replaceAll_append_cons hold]
  have hleft : '=' ∉ replaceAll (valueOf t) new (leftOf t) := fun hmem =>
    (mem_replaceAll hmem).elim hequals equals_not_mem_leftOf
  rw [hreplaced, valueOf_append hleft, leftOf_replaceAll hold hequals]
  exact trim_replaceAll hvalue hne hnew

/-- A number and what a value text keeps make a value text again. -/
theorem isTrimmed_newValue (hv : v.IsNumeric) (hok : isAcceptable v = true)
    (hold : IsTrimmed isWhitespace old) (h : newValue old v = .ok new) :
    new ≠ [] ∧ IsTrimmed isWhitespace new := by
  obtain ⟨a, m, number, b, hnumber, rfl, rfl⟩ := exists_of_newValue h
  have hclean := isClean_numberText hv hok hnumber
  exact ⟨by simp [hclean.ne_nil], hold.splice hclean.trimmed hclean.ne_nil⟩

theorem equals_not_mem_newValue (hv : v.IsNumeric) (hok : isAcceptable v = true) (hold : '=' ∉ old)
    (h : newValue old v = .ok new) : '=' ∉ new := by
  obtain ⟨a, m, number, b, hnumber, rfl, rfl⟩ := exists_of_newValue h
  have hrun := (isRun_numberText hv hok hnumber).2
  have hno : '=' ∉ number := fun hmem => absurd (hrun _ hmem) (by decide)
  simp only [List.mem_append, not_or] at hold ⊢
  exact ⟨hold.1, hno, hold.2.2⟩

namespace Rewrite.Replaces

/-- A rewritten slot keeps its equals sign. -/
theorem equals_after (h : r.Replaces slots name v new) : '=' ∈ r.after := by
  rw [h.after, eq_leftOf_append h.equals,
    replaceAll_append_cons (equals_not_mem_valueOf _)]
  simp

/-- The value text of a rewritten slot is the new one. -/
theorem valueOf_after (h : r.Replaces slots name v new) (hv : v.IsNumeric)
    (hok : isAcceptable v = true) : valueOf r.after = new := by
  obtain ⟨hne, htrimmed⟩ := isTrimmed_newValue hv hok (isTrimmed_valueOf r.before) h.newValue
  have hequals : '=' ∉ new :=
    equals_not_mem_newValue hv hok (equals_not_mem_valueOf r.before) h.newValue
  rw [h.after, valueOf_replaceAll h.equals h.value_ne_nil hne htrimmed hequals]

/-- **A rewrite that spares the left side** keeps the name of its slot, and the row of the slot is
this name with the new value text. -/
theorem rowOf_after (h : r.Replaces slots name v new) (hv : v.IsNumeric)
    (hok : isAcceptable v = true) (hleft : ¬valueOf r.before <:+: leftOf r.before) :
    rowOf r.after = (name, new) := by
  have hold : '=' ∉ valueOf r.before := equals_not_mem_valueOf r.before
  have hequals : '=' ∉ new := equals_not_mem_newValue hv hok hold h.newValue
  have hname : leftOf r.after = leftOf r.before := by
    rw [h.after, leftOf_replaceAll hold hequals, replaceAll_of_not_infix hleft]
  rw [rowOf, h.valueOf_after hv hok, hname, h.isFirst.named]

end Rewrite.Replaces

/-- **Every slot keeps its equals sign** when one of them is rewritten. -/
theorem equals_of_plan (hall : ∀ slot ∈ slots, '=' ∈ slot) (hplan : plan slots name v = .ok (some r)) :
    ∀ slot ∈ slots.set r.index r.after, '=' ∈ slot := by
  obtain ⟨-, new, hr⟩ := replaces_of_plan hplan
  intro slot hslot
  rcases List.mem_or_eq_of_mem_set hslot with hslot | rfl
  · exact hall slot hslot
  · exact hr.equals_after

/-! ### Looking up behind a rewrite -/

theorem IsFirst.set_self {i : ℕ} (h : IsFirst slots name i t) : slots.set i t = slots := by
  obtain ⟨hi, hslot⟩ := List.getElem?_eq_some_iff.1 h.slot
  rw [← hslot, List.set_getElem_self]

/-- A row hides the rows of its name in front of it, and is hidden by those behind it. -/
theorem lookup_reverse_append_cons (earlier later : List (Text × Text)) (row : Text × Text)
    (name : Text) : (earlier ++ row :: later).reverse.lookup name =
      (later.reverse.lookup name).or
        (if name = row.1 then some row.2 else earlier.reverse.lookup name) := by
  rw [List.reverse_append, List.reverse_cons, List.append_assoc, List.singleton_append,
    List.lookup_append, lookup_cons_row]

theorem lookup_reverse_eq_none_iff {rows : List (Text × Text)} :
    rows.reverse.lookup name = none ↔ ∀ row ∈ rows, row.1 ≠ name := by
  rw [List.lookup_eq_none_iff]
  simp only [List.mem_reverse, bne_iff_ne, ne_comm]

/-- What is looked up in slots with a slot of the name at `i`. -/
theorem getOne_set {i : ℕ} {slot value : Text} (hall : ∀ slot ∈ slots, '=' ∈ slot)
    (hi : i < slots.length) (hequals : '=' ∈ slot) (hrow : rowOf slot = (name, value)) :
    getOne (slots.set i slot) name =
      .ok ((((slots.drop (i + 1)).map rowOf).reverse.lookup name).or (some value)) := by
  have hall' : ∀ s ∈ slots.set i slot, '=' ∈ s := fun s hs =>
    (List.mem_or_eq_of_mem_set hs).elim (hall s) fun h => h ▸ hequals
  have hrows : (slots.set i slot).map rowOf =
      (slots.take i).map rowOf ++ (name, value) :: (slots.drop (i + 1)).map rowOf := by
    rw [List.set_eq_take_append_cons_drop, if_pos hi, List.map_append, List.map_cons, hrow]
  rw [getOne_eq hall', hrows, lookup_reverse_append_cons, if_pos rfl]

/-- With no later slot of the name, its slot is looked up. -/
theorem getOne_set_last {i : ℕ} {slot value : Text} (hall : ∀ slot ∈ slots, '=' ∈ slot)
    (hi : i < slots.length) (hequals : '=' ∈ slot) (hrow : rowOf slot = (name, value))
    (hlast : ∀ later ∈ slots.drop (i + 1), nameOf (leftOf later) ≠ name) :
    getOne (slots.set i slot) name = .ok (some value) := by
  have hnone : ((slots.drop (i + 1)).map rowOf).reverse.lookup name = none :=
    lookup_reverse_eq_none_iff.2 (List.forall_mem_map.2 hlast)
  rw [getOne_set hall hi hequals hrow, hnone, Option.none_or]

/-- A later slot of the name hides the slot. -/
theorem getOne_set_hidden {i : ℕ} {slot value : Text} (hall : ∀ slot ∈ slots, '=' ∈ slot)
    (hi : i < slots.length) (hequals : '=' ∈ slot) (hrow : rowOf slot = (name, value))
    (hlater : ∃ later ∈ slots.drop (i + 1), nameOf (leftOf later) = name) :
    getOne (slots.set i slot) name =
      .ok (((slots.drop (i + 1)).map rowOf).reverse.lookup name) := by
  obtain ⟨later, hlater, hname⟩ := hlater
  obtain ⟨hidden, hlookup⟩ : ∃ hidden,
      ((slots.drop (i + 1)).map rowOf).reverse.lookup name = some hidden := by
    rw [← Option.ne_none_iff_exists', Ne, lookup_reverse_eq_none_iff]
    exact fun hno => hno _ (List.mem_map_of_mem hlater) hname
  rw [getOne_set hall hi hequals hrow, hlookup, Option.some_or]

/-- The new value text is the old one with its number, behind an opening, replaced by another. -/
def Renumbers (old number new : Text) : Prop :=
  ∃ opening n rest, IsOpening opening ∧ n.IsWellFormed ∧ Numeral.scan (n.text ++ rest) = (n, rest) ∧
    old = opening ++ (n.text ++ rest) ∧ new = opening ++ (number ++ rest)

/-- **What was set is read back** from the last slot of its name. Setting a number rewrites the
first slot of the name, where the leading number of the value text is replaced. As long as the old
value text does not stand in front of the equals sign, the new one is what is looked up afterwards,
unless a later slot has the same name: then looking up finds what it found before. -/
theorem getOne_setOne {s s' : SlotSource} {x : Binary64} {rows : List (Text × Text)} {h : Host}
    (hall : entries s.texts = .ok rows) (hset : (setOne s name (.float x) h).1 = .ok (some r, s'))
    (hleft : ¬valueOf r.before <:+: leftOf r.before) :
    s'.texts = s.texts.set r.index r.after ∧
    ∃ written, r.Replaces s.texts name (.float x) written ∧
      Renumbers (valueOf r.before) x.toCompactText written ∧
      ((∀ slot ∈ s.texts.drop (r.index + 1), nameOf (leftOf slot) ≠ name) →
        getOne s'.texts name = .ok (some written)) ∧
      ((∃ slot ∈ s.texts.drop (r.index + 1), nameOf (leftOf slot) = name) →
        getOne s'.texts name = getOne s.texts name) := by
  obtain ⟨hequals, -⟩ := entries_eq_ok_iff.1 hall
  obtain ⟨hplan, htexts⟩ := plan_of_setOne hset
  obtain ⟨hok, written, hr⟩ := replaces_of_plan hplan
  obtain ⟨opening, n, rest, number, hopening, hn, hscan, hnumber, hold, hnew⟩ :=
    exists_numeral_of_newValue hr.newValue
  obtain rfl : x.toCompactText = number := Except.ok.inj hnumber
  have hrow : rowOf r.after = (name, written) := hr.rowOf_after trivial hok hleft
  refine ⟨htexts, written, hr, ⟨opening, n, rest, hopening, hn, hscan, hold, hnew⟩, fun hlast => ?_,
    fun hlater => ?_⟩
  · rw [htexts]
    exact getOne_set_last hequals hr.index_lt hr.equals_after hrow hlast
  · -- the slot as it was is one of the name as well, and hidden as well
    have hrow' : rowOf r.before = (name, valueOf r.before) := by rw [rowOf, hr.isFirst.named]
    rw [htexts, getOne_set_hidden hequals hr.index_lt hr.equals_after hrow hlater,
      ← getOne_set_hidden hequals hr.index_lt hr.equals hrow' hlater, hr.isFirst.set_self]

/-- A number inside quotes is changed, and read back with them. -/
theorem getOne_setOne_quoted :
    (setOne (.memory ["\"a\" = \"5\" mm".toList, "\"b\"=1m".toList] false) ['a']
        (.float (Measure.constant 7 0)) {}).1 =
      .ok (some ⟨0, "\"a\" = \"5\" mm".toList, "\"a\" = \"7\" mm".toList⟩,
        .memory ["\"a\" = \"7\" mm".toList, "\"b\"=1m".toList] false) ∧
    getOne ["\"a\" = \"7\" mm".toList, "\"b\"=1m".toList] ['a'] = .ok (some "\"7\" mm".toList) := by
  have hset : (setOne (.memory ["\"a\" = \"5\" mm".toList, "\"b\"=1m".toList] false) ['a']
        (.float (Measure.constant 7 0)) {}).1 =
      .ok (some ⟨0, "\"a\" = \"5\" mm".toList, "\"a\" = \"7\" mm".toList⟩,
        .memory ["\"a\" = \"7\" mm".toList, "\"b\"=1m".toList] false) := by decide +kernel
  have hall : entries (SlotSource.memory ["\"a\" = \"5\" mm".toList, "\"b\"=1m".toList] false).texts =
      .ok [(['a'], "\"5\" mm".toList), (['b'], "1m".toList)] := by decide +kernel
  obtain ⟨-, written, hr, -, hread, -⟩ := getOne_setOne hall hset
    (by rw [← occursIn_iff]; decide +kernel)
  have hnew : newValue (valueOf "\"a\" = \"5\" mm".toList) (.float (Measure.constant 7 0)) =
      .ok "\"7\" mm".toList := by decide +kernel
  obtain rfl : written = "\"7\" mm".toList := Except.ok.inj (hr.newValue.symm.trans hnew)
  exact ⟨hset, hread (by decide +kernel)⟩

/-- **What was set is not always read back.** A later slot of the name hides the value text that was
written to the first one. And a value text in quotes may stand in front of the equals sign without
occurring in the name, which has lost its quotes: the slot is then renamed, and the name is gone. -/
theorem getOne_setOne_hidden :
    (entries ["\"a\"=1mm".toList, "\"a\"=2mm".toList] = .ok [(['a'], "2mm".toList)] ∧
      ¬"1mm".toList <:+: ['a'] ∧
      newValue "1mm".toList (.float (Measure.constant 5 0)) = .ok "5mm".toList ∧
      (setOne (.memory ["\"a\"=1mm".toList, "\"a\"=2mm".toList] false) ['a']
          (.float (Measure.constant 5 0)) {}).1 =
        .ok (some ⟨0, "\"a\"=1mm".toList, "\"a\"=5mm".toList⟩,
          .memory ["\"a\"=5mm".toList, "\"a\"=2mm".toList] false) ∧
      getOne ["\"a\"=5mm".toList, "\"a\"=2mm".toList] ['a'] = .ok (some "2mm".toList)) ∧
    entries ["\"5\"=\"5\"".toList] = .ok [(['5'], "\"5\"".toList)] ∧
      ¬"\"5\"".toList <:+: ['5'] ∧
      newValue "\"5\"".toList (.float (Measure.constant 7 0)) = .ok "\"7\"".toList ∧
      (setOne (.memory ["\"5\"=\"5\"".toList] false) ['5'] (.float (Measure.constant 7 0)) {}).1 =
        .ok (some ⟨0, "\"5\"=\"5\"".toList, "\"7\"=\"7\"".toList⟩,
          .memory ["\"7\"=\"7\"".toList] false) ∧
      getOne ["\"7\"=\"7\"".toList] ['5'] = .ok none := by
  have hfirst : ¬"1mm".toList <:+: ['a'] := by rw [← occursIn_iff]; decide
  have hquoted : ¬"\"5\"".toList <:+: ['5'] := by rw [← occursIn_iff]; decide
  refine ⟨⟨by decide +kernel, hfirst, by decide +kernel, by decide +kernel, by decide +kernel⟩,
    by decide +kernel, hquoted, by decide +kernel, by decide +kernel, by decide +kernel⟩

end Store

end EquationSheet
