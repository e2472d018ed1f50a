import EquationSheet.Sheet
import EquationSheet.Store.Update
import EquationSheet.Proofs.Rendering
import EquationSheet.Proofs.Replacement

/-!
# Slots that survive their file

A slot is clean if it is not empty, has no whitespace at its ends and no line boundary inside. The
slots of a sheet are clean, clean slots are read back from the sheet they are joined to, and a slot
stays clean when a number is set in it.

* `isClean_of_mem_split`: the slots of a sheet are clean.
* `split_join`: **clean slots are the slots of their sheet**.
* `split_unifyNewlines`: the slots do not depend on how newlines were read.
* `exists_numeral_of_newValue`: a number takes the place of the numeral behind the opening.
* `isClean_of_plan`: **setting a number keeps a slot clean**.
-/

namespace EquationSheet

open Text

/-- A slot that is read back from the line it is written on. -/
structure IsClean (t : Text) : Prop where
  ne_nil : t ≠ []
  trimmed : IsTrimmed isWhitespace t
  unbroken : ∀ c ∈ t, isLineBoundary c = false

/-! ### Lines -/

namespace Text

variable {t a rest : Text} {c : Char}

theorem lines_cons (hc : c ≠ '\r') (rest : Text) : lines (c :: rest) =
    if isLineBoundary c then [] :: lines rest else consToFirst c (lines rest) := by
  rw [lines]
  rintro rest' rfl
  exact absurd rfl hc

/-- Up to its line feed a text without boundaries is one line. -/
theorem lines_append (h : ∀ c ∈ a, isLineBoundary c = false) :
    lines (a ++ '\n' :: rest) = a :: lines rest := by
  induction a with
  | nil => rw [List.nil_append, lines_cons (by decide)]; rfl
  | cons c a ih =>
    have hc := h c List.mem_cons_self
    have hne : c ≠ '\r' := by rintro rfl; exact absurd hc (by decide)
    rw [List.cons_append, lines_cons hne, hc, ih fun d hd => h d (List.mem_cons_of_mem c hd)]
    rfl

theorem mem_consToFirst {line : Text} {ls : List Text} (h : line ∈ consToFirst c ls) :
    line = [c] ∨ (∃ l ∈ ls, line = c :: l) ∨ line ∈ ls := by
  cases ls with
  | nil => exact .inl (by simpa [consToFirst] using h)
  | cons l ls =>
    rcases List.mem_cons.1 h with rfl | h
    · exact .inr (.inl ⟨l, List.mem_cons_self, rfl⟩)
    · exact .inr (.inr (List.mem_cons_of_mem l h))

/-- **No line has a boundary inside.** -/
theorem isLineBoundary_of_mem_lines {line : Text} (h : line ∈ t.lines) :
    ∀ c ∈ line, isLineBoundary c = false := by
  induction t using lines.induct generalizing line with
  | case1 => simp [lines] at h
  | case2 rest ih =>
    rw [lines] at h
    rcases List.mem_cons.1 h with rfl | h
    · simp
    · exact ih h
  | case3 c rest hno hc ih =>
    rw [lines, if_pos hc] at h
    · rcases List.mem_cons.1 h with rfl | h
      · simp
      · exact ih h
    · exact hno
  | case4 c rest hno hc ih =>
    rw [lines, if_neg hc] at h
    · have hc' : isLineBoundary c = false := by simpa using hc
      rcases mem_consToFirst h with rfl | ⟨l, hl, rfl⟩ | hl
      · simpa using hc'
      · intro d hd
        rcases List.mem_cons.1 hd with rfl | hd
        · exact hc'
        · exact ih hl d hd
      · exact ih hl
    · exact hno

/-- A carriage return ends the same line as the line feed it is read as. -/
theorem lines_unifyNewlines (t : Text) : t.unifyNewlines.lines = t.lines := by
  -- both functions look at the same two code points
  induction t using lines.induct with
  | case1 => rfl
  | case2 rest ih =>
    rw [unifyNewlines, lines_cons (by decide), ih, lines]
    rfl
  | case3 c rest hno hc ih =>
    have hlines : lines (c :: rest) = [] :: lines rest := by rw [lines, if_pos hc]; exact hno
    rw [hlines, unifyNewlines]
    · by_cases hr : c = '\r'
      · rw [if_pos hr, lines_cons (by decide), ih]
        rfl
      · rw [if_neg hr, lines_cons hr, if_pos hc, ih]
    · exact hno
  | case4 c rest hno hc ih =>
    have hr : c ≠ '\r' := by rintro rfl; exact hc (by decide)
    have hlines : lines (c :: rest) = consToFirst c (lines rest) := by
      rw [lines_cons hr, if_neg hc]
    rw [hlines, unifyNewlines]
    · rw [if_neg hr, lines_cons hr, if_neg hc, ih]
    · exact hno

theorem mem_of_mem_segments {sep : Char} {piece : Text} (h : piece ∈ segments sep t) :
    ∀ c ∈ piece, c ∈ t := by
  induction t generalizing piece with
  | nil =>
    obtain rfl : piece = [] := by simpa [segments] using h
    simp
  | cons d t ih =>
    simp only [segments] at h
    obtain ⟨first, more, hmore⟩ := List.exists_cons_of_ne_nil (segments_ne_nil sep t)
    rw [hmore] at h ih
    have hlater : ∀ p ∈ first :: more, ∀ c ∈ p, c ∈ d :: t := fun p hp c hc =>
      List.mem_cons_of_mem d (ih hp c hc)
    split at h
    · rcases List.mem_cons.1 h with rfl | h
      · simp
      · exact hlater piece h
    · rcases List.mem_cons.1 h with rfl | h
      · intro c hc
        rcases List.mem_cons.1 hc with rfl | hc
        · exact List.mem_cons_self
        · exact hlater first List.mem_cons_self c hc
      · exact hlater piece (List.mem_cons_of_mem first h)

end Text

/-! ### Sheets -/

namespace Sheet

/-- **The slots of a sheet are clean.** -/
theorem isClean_of_mem_split {t slot : Text} (h : slot ∈ split t) : IsClean slot := by
  simp only [split, List.mem_filter, List.mem_map] at h
  obtain ⟨⟨line, hline, rfl⟩, hne⟩ := h
  refine ⟨by simpa using hne, isTrimmed_trimBy _ _, fun c hc => ?_⟩
  exact isLineBoundary_of_mem_lines hline c (mem_of_mem_trimBy hc)

theorem split_unifyNewlines (t : Text) : split t.unifyNewlines = split t := by
  unfold split
  rw [lines_unifyNewlines]

theorem split_append {slot rest : Text} (h : IsClean slot) :
    split (slot ++ '\n' :: rest) = slot :: split rest := by
  unfold split
  rw [lines_append h.unbroken, List.map_cons, List.filter_cons_of_pos]
  · rw [show slot.trim = slot from trimBy_of_isTrimmed h.trimmed]
  · rw [show slot.trim = slot from trimBy_of_isTrimmed h.trimmed]
    simpa using h.ne_nil

/-- **Clean slots are the slots of their sheet.** -/
theorem split_join {slots : List Text} (h : ∀ slot ∈ slots, IsClean slot) :
    split (join slots) = slots := by
  unfold join
  induction slots with
  | nil => decide
  | cons slot slots ih =>
    have hslot := h slot List.mem_cons_self
    have hrest := ih fun s hs => h s (List.mem_cons_of_mem slot hs)
    -- the last slot ends with a line feed too
    cases slots with
    | nil => exact split_append hslot
    | cons next slots =>
      simp only [joinWith, List.append_assoc, List.cons_append]
      rw [split_append hslot]
      exact congrArg (slot :: ·) hrest

end Sheet

/-! ### Setting a number -/

/-- An integer or a binary64 number. -/
def Scalar.IsNumeric : Scalar → Prop
  | .int _ | .float _ => True
  | _ => False

namespace Store

variable {slots : List Text} {name value number : Text} {v : Scalar}

/-- A number is written with the code points of numerals. -/
theorem isRun_numberText (hv : v.IsNumeric) (hok : isAcceptable v = true)
    (h : v.numberText = .ok number) : number ≠ [] ∧ IsRun Numeral.isNumeralChar number := by
  cases v with
  | int n =>
    have hdigits : IsRun Numeral.isNumeralChar (Nat.toDigits 10 n.natAbs) :=
      (Binary64.isRun_digits n.natAbs).imp fun c hc => by simp [Numeral.isNumeralChar, hc]
    simp only [Scalar.numberText, Scalar.textWith, Scalar.intText] at h
    split at h
    · simp at h
    · obtain rfl := Except.ok.inj h
      split
      · exact ⟨by simp, isRun_cons.2 ⟨by decide, hdigits⟩⟩
      · exact ⟨Nat.toDigits_ne_nil, hdigits⟩
  | float x =>
    obtain ⟨n, hn, htext, -⟩ := Binary64.exists_numeral_toCompactText hok
    obtain rfl : x.toCompactText = number := Except.ok.inj h
    rw [← htext]
    exact ⟨Numeral.text_ne_nil hn.mantissa_ne, hn.isRun_text⟩
  | text t => exact hv.elim
  | bool b => exact hv.elim
  | absent => exact hv.elim

/-- What may stand in front of the number of a value text: a quote, and blanks. -/
def IsOpening (t : Text) : Prop :=
  ∃ quote ws, (quote = [] ∨ quote = ['"']) ∧ IsRun isBlank ws ∧ t = quote ++ ws

/-- The text in front of the number is its opening. -/
theorem isOpening_take (value : Text) : IsOpening (value.take (openingLength value)) := by
  have hrest : ∀ quote rest : Text, (quote ++ rest).take
      ((quote ++ rest).length - rest.skipBlanks.length) = quote ++ rest.takeWhile isBlank := by
    intro quote rest
    have hsplit : rest.takeWhile isBlank ++ rest.skipBlanks = rest := List.takeWhile_append_dropWhile
    have hlength := congrArg List.length hsplit
    have hcount : (quote ++ rest).length - rest.skipBlanks.length =
        (quote ++ rest.takeWhile isBlank).length := by
      simp only [List.length_append] at hlength ⊢
      omega
    rw [hcount]
    conv_lhs => arg 2; rw [← hsplit]
    rw [← List.append_assoc, List.take_left]
  unfold openingLength
  split
  · rename_i rest
    exact ⟨['"'], rest.takeWhile isBlank, .inr rfl, isRun_takeWhile, hrest ['"'] rest⟩
  · exact ⟨[], value.takeWhile isBlank, .inl rfl, isRun_takeWhile, hrest [] value⟩

/-- The new value text is the old one with a number in the place of the numeral behind its
opening. -/
theorem exists_numeral_of_newValue {value' : Text} (h : newValue value v = .ok value') :
    ∃ opening n rest number, IsOpening opening ∧ n.IsWellFormed ∧
      Numeral.scan (n.text ++ rest) = (n, rest) ∧ v.numberText = .ok number ∧
      value = opening ++ (n.text ++ rest) ∧ value' = opening ++ (number ++ rest) := by
  unfold newValue at h
  simp only at h
  cases hread : Numeral.read (value.drop (openingLength value)) with
  | error fault => rw [hread] at h; simp at h
  | ok found =>
    obtain ⟨x, rest⟩ := found
    obtain ⟨n, hn, hscan, hdrop, -, -⟩ := Numeral.exists_of_read hread
    rw [hread] at h
    cases hnumber : v.numberText with
    | error fault => rw [hnumber] at h; simp at h
    | ok number =>
      rw [hnumber] at h
      refine ⟨value.take (openingLength value), n, rest, number, isOpening_take value, hn, ?_, rfl,
        ?_, ?_⟩
      · rw [← hdrop, hscan]
      · rw [← hdrop, List.take_append_drop]
      · rw [← List.append_assoc]
        exact (Except.ok.inj h).symm

/-- The new value text is the old one with a number in the place of its first numeral. -/
theorem exists_of_newValue {value' : Text} (h : newValue value v = .ok value') :
    ∃ a m number b, v.numberText = .ok number ∧ value = a ++ (m ++ b) ∧
      value' = a ++ (number ++ b) := by
  obtain ⟨opening, n, rest, number, -, -, -, hnumber, hvalue, hvalue'⟩ :=
    exists_numeral_of_newValue h
  exact ⟨opening, n.text, number, rest, hnumber, hvalue, hvalue'⟩

/-- What is found is a slot, with the trimmed text of one of its pieces. -/
structure Found.IsFrom (found : Found) (index : ℕ) (slots : List Text) : Prop where
  index_le : index ≤ found.index
  slot : slots[found.index - index]? = some found.slot
  trimmed : IsTrimmed isWhitespace found.value
  subset : ∀ c ∈ found.value, c ∈ found.slot

/-- The value text of a slot is a trimmed piece of it. -/
theorem isTrimmed_of_entry {index : ℕ} {slot : Text} (h : entry index slot = .ok (name, value)) :
    IsTrimmed isWhitespace value ∧ ∀ c ∈ value, c ∈ slot := by
  unfold entry split at h
  split at h
  · rename_i left piece more hpieces
    simp only [Except.map, Except.ok.injEq, Prod.mk.injEq] at h
    obtain ⟨-, rfl⟩ := h
    have hpiece : piece ∈ segments '=' slot := by rw [hpieces]; simp
    exact ⟨isTrimmed_trimBy _ _, fun c hc => mem_of_mem_segments hpiece c (mem_of_mem_trimBy hc)⟩
  · simp [Except.map] at h

theorem isFrom_of_findFrom {found : Found} {index : ℕ}
    (h : findFrom name index slots = .ok (some found)) : found.IsFrom index slots := by
  induction slots generalizing index with
  | nil => simp [findFrom] at h
  | cons slot slots ih =>
    simp only [findFrom] at h
    split at h
    · simp at h
    rename_i n value hentry
    split at h
    · -- this is the slot that was looked for
      obtain rfl := Option.some.inj (Except.ok.inj h)
      obtain ⟨htrimmed, hsubset⟩ := isTrimmed_of_entry hentry
      exact ⟨le_rfl, by simp, htrimmed, hsubset⟩
    · obtain ⟨hle, hslot, htrimmed, hsubset⟩ := ih h
      refine ⟨by omega, ?_, htrimmed, hsubset⟩
      rw [show found.index - index = found.index - (index + 1) + 1 by omega]
      simpa using hslot

theorem isLineBoundary_of_isNumeralChar {c : Char} (h : Numeral.isNumeralChar c = true) :
    isLineBoundary c = false := by
  cases hb : isLineBoundary c with
  | false => rfl
  | true =>
    have hspace := isWhitespace_of_isLineBoundary hb
    rw [Numeral.isWhitespace_of_isNumeralChar h] at hspace
    exact absurd hspace (by decide)

/-- A number is a clean text. -/
theorem isClean_numberText (hv : v.IsNumeric) (hok : isAcceptable v = true)
    (h : v.numberText = .ok number) : IsClean number := by
  obtain ⟨hne, hrun⟩ := isRun_numberText hv hok h
  exact ⟨hne, hrun.isTrimmed fun _ => Numeral.isWhitespace_of_isNumeralChar,
    fun c hc => isLineBoundary_of_isNumeralChar (hrun c hc)⟩

/-- The new value text is clean if the old one is. -/
theorem isClean_newValue {value' : Text} (hv : v.IsNumeric) (hok : isAcceptable v = true)
    (hvalue : IsClean value) (h : newValue value v = .ok value') : IsClean value' := by
  obtain ⟨a, m, number, b, hnumber, rfl, rfl⟩ := exists_of_newValue h
  have hclean := isClean_numberText hv hok hnumber
  refine ⟨by simp [hclean.ne_nil], hvalue.trimmed.splice hclean.trimmed hclean.ne_nil,
    fun c hc => ?_⟩
  have hold := hvalue.unbroken c
  have hnew := hclean.unbroken c
  simp only [List.mem_append] at hc hold
  tauto

/-- Replacing a text by a clean one keeps a slot clean. -/
theorem isClean_replaceAll {old new t : Text} (hnew : IsClean new) (ht : IsClean t) :
    IsClean (replaceAll old new t) :=
  ⟨replaceAll_ne_nil hnew.ne_nil ht.ne_nil,
    isTrimmed_replaceAll hnew.ne_nil hnew.trimmed ht.trimmed,
    fun c hc => (mem_replaceAll hc).elim (hnew.unbroken c) (ht.unbroken c)⟩

theorem isClean_of_rewrite {found : Found} {r : Rewrite} (hv : v.IsNumeric)
    (hok : isAcceptable v = true) (hfrom : found.IsFrom 0 slots) (hslot : IsClean found.slot)
    (h : rewrite name v found = .ok r) :
    slots[r.index]? = some r.before ∧ IsClean r.after := by
  unfold rewrite at h
  split at h
  · simp at h
  rename_i hne
  have hvalue : IsClean found.value :=
    ⟨by simpa using hne, hfrom.trimmed, fun c hc => hslot.unbroken c (hfrom.subset c hc)⟩
  cases hnew : newValue found.value v with
  | error fault => rw [hnew] at h; simp [Except.map] at h
  | ok value' =>
    rw [hnew] at h
    obtain rfl := Except.ok.inj h
    exact ⟨by simpa using hfrom.slot,
      isClean_replaceAll (isClean_newValue hv hok hvalue hnew) hslot⟩

/-- **Setting a number keeps slots clean.** The slot to be rewritten is one of the slots, and its
new text is clean if they are. -/
theorem isClean_of_plan {r : Rewrite} (hv : v.IsNumeric) (hslots : ∀ slot ∈ slots, IsClean slot)
    (h : plan slots name v = .ok (some r)) :
    slots[r.index]? = some r.before ∧ IsClean r.after := by
  unfold plan at h
  split at h
  · simp at h
  rename_i hok
  split at h
  · simp at h
  · simp at h
  rename_i found hfound
  have hfrom := isFrom_of_findFrom hfound
  have hslot : slots[found.index]? = some found.slot := by simpa using hfrom.slot
  cases hrewrite : rewrite name v found with
  | error fault => rw [hrewrite] at h; simp [Except.map] at h
  | ok r' =>
    rw [hrewrite] at h
    obtain rfl := Option.some.inj (Except.ok.inj h)
    exact isClean_of_rewrite hv (by simpa using hok) hfrom
      (hslots _ (List.mem_of_getElem? hslot)) hrewrite

end Store

end EquationSheet
