import EquationSheet.Proofs.ReadBack

/-!
# Replacing everywhere, or in one place

A value text is changed by replacing it wherever it occurs in its slot. An occurrence lies within
one piece of the slot, since a value text has no equals sign, and the piece behind the first equals
sign is the value text with its margins. So the value is always changed, and nothing else is, exactly
if the value text occurs in no other piece or is replaced by itself.

* `segments_replaceAll`: **the pieces are replaced one by one**.
* `replaceAll_eq_self_iff`: a replacement changes every text in which something is replaced.
* `splice`: the slot with a new text in the place of its value text alone.
* `setOne_splices_iff`: **when replacing everywhere is replacing in one place**.
-/

namespace EquationSheet

open Text

namespace Text

variable {old new t : Text} {sep : Char}

/-! ### Pieces -/

theorem joinWith_cons (separator piece : Text) (pieces : List Text) :
    joinWith separator (piece :: pieces) = piece ++ (pieces.map (separator ++ ·)).flatten := by
  induction pieces generalizing piece with
  | nil => simp [joinWith]
  | cons next pieces ih =>
    simp only [joinWith, ih, List.map_cons, List.flatten_cons, List.append_assoc]

/-- In front of other pieces a piece ends with the separator. -/
theorem joinWith_cons_cons (sep : Char) (piece next : Text) (pieces : List Text) :
    joinWith [sep] (piece :: next :: pieces) =
      piece ++ sep :: joinWith [sep] (next :: pieces) := by
  simp only [joinWith, List.append_assoc, List.cons_append, List.nil_append]

/-- **The pieces of a text make it up**, with the separator between them. -/
theorem joinWith_segments (sep : Char) (t : Text) : joinWith [sep] (segments sep t) = t := by
  induction t with
  | nil => rfl
  | cons c t ih =>
    obtain ⟨piece, more, hmore⟩ := List.exists_cons_of_ne_nil (segments_ne_nil sep t)
    rw [hmore, joinWith_cons] at ih
    simp only [segments]
    split
    · rename_i hc
      rw [joinWith_cons, hmore, List.map_cons, List.flatten_cons, List.nil_append, List.append_assoc,
        ih, hc]
      rfl
    · rw [hmore]
      simp only
      rw [joinWith_cons, List.cons_append, ih]

/-- A text is known by its pieces. -/
theorem segments_inj (sep : Char) {t t' : Text} : segments sep t = segments sep t' ↔ t = t' := by
  refine ⟨fun h => ?_, fun h => h ▸ rfl⟩
  rw [← joinWith_segments sep t, h, joinWith_segments]

/-- No piece has the separator. -/
theorem not_mem_of_mem_segments {piece : Text} (h : piece ∈ segments sep t) : sep ∉ piece := by
  induction t generalizing piece with
  | nil =>
    obtain rfl : piece = [] := by simpa [segments] using h
    simp
  | cons c t ih =>
    obtain ⟨first, more, hmore⟩ := List.exists_cons_of_ne_nil (segments_ne_nil sep t)
    rw [hmore] at ih
    simp only [segments] at h
    split at h
    · rw [hmore] at h
      rcases List.mem_cons.1 h with rfl | h
      · simp
      · exact ih h
    · rename_i hc
      rw [hmore] at h
      rcases List.mem_cons.1 h with rfl | h
      · rw [List.mem_cons, not_or]
        exact ⟨Ne.symm hc, ih List.mem_cons_self⟩
      · exact ih (List.mem_cons_of_mem first h)

/-- There is one piece more than there are separators. -/
theorem length_segments (sep : Char) (t : Text) : (segments sep t).length = t.count sep + 1 := by
  induction t with
  | nil => rfl
  | cons c t ih =>
    obtain ⟨piece, more, hmore⟩ := List.exists_cons_of_ne_nil (segments_ne_nil sep t)
    rw [hmore, List.length_cons] at ih
    simp only [segments]
    split
    · rename_i hc
      rw [hmore, hc, List.count_cons_self, List.length_cons, List.length_cons]
      omega
    · rename_i hc
      rw [hmore, List.count_cons_of_ne hc]
      simp only [List.length_cons]
      omega

/-- Pieces without the separator are the pieces of the text that they make up. -/
theorem segments_joinWith {pieces : List Text} (hne : pieces ≠ []) (hsep : ∀ p ∈ pieces, sep ∉ p) :
    segments sep (joinWith [sep] pieces) = pieces := by
  induction pieces with
  | nil => exact absurd rfl hne
  | cons piece pieces ih =>
    obtain ⟨hpiece, hrest⟩ := List.forall_mem_cons.1 hsep
    cases pieces with
    | nil => exact segments_of_not_mem hpiece
    | cons next pieces => rw [joinWith_cons_cons, segments_append hpiece, ih (by simp) hrest]

/-- No occurrence of a text without the separator reaches from one piece into another. -/
theorem replaceAll_joinWith (hold : sep ∉ old) (new : Text) {pieces : List Text} (hne : pieces ≠ []) :
    replaceAll old new (joinWith [sep] pieces) =
      joinWith [sep] (pieces.map (replaceAll old new)) := by
  induction pieces with
  | nil => exact absurd rfl hne
  | cons piece pieces ih =>
    cases pieces with
    | nil => rfl
    | cons next pieces =>
      rw [joinWith_cons_cons, replaceAll_append_cons hold, ih (by simp)]
      simp only [List.map_cons, joinWith_cons_cons]

/-- **The pieces are replaced one by one** by a replacement that has nothing to do with the
separator. -/
theorem segments_replaceAll (hold : sep ∉ old) (hnew : sep ∉ new) (t : Text) :
    segments sep (replaceAll old new t) = (segments sep t).map (replaceAll old new) := by
  have hjoined := replaceAll_joinWith hold new (segments_ne_nil sep t)
  rw [joinWith_segments] at hjoined
  rw [hjoined]
  apply segments_joinWith
  · simpa using segments_ne_nil sep t
  · intro p hp hmem
    obtain ⟨piece, hpiece, rfl⟩ := List.mem_map.1 hp
    exact (mem_replaceAll hmem).elim hnew (not_mem_of_mem_segments hpiece)

/-- A replacement keeps the number of separators. -/
theorem count_replaceAll (hold : sep ∉ old) (hnew : sep ∉ new) (t : Text) :
    (replaceAll old new t).count sep = t.count sep := by
  have h := congrArg List.length (segments_replaceAll hold hnew t)
  rw [List.length_map, length_segments, length_segments] at h
  omega

/-! ### Texts that are not changed -/

/-- The first occurrence is replaced, and then the text behind it. -/
theorem exists_first_occurrence (hne : old ≠ []) (h : old <:+: t) : ∃ a b, t = a ++ (old ++ b) ∧
    ∀ new, replaceAll old new t = a ++ (new ++ replaceAll old new b) := by
  obtain ⟨first, rest, rfl⟩ := List.exists_cons_of_ne_nil hne
  induction t with
  | nil => simp at h
  | cons c t ih =>
    by_cases hprefix : first :: rest <+: c :: t
    · obtain ⟨b, hb⟩ := hprefix
      refine ⟨[], b, hb.symm, fun new => ?_⟩
      rw [← hb]
      exact replaceAll_prefix hne
    · have hlater : first :: rest <:+: t := (List.infix_cons_iff.1 h).resolve_left hprefix
      obtain ⟨a, b, ht, hreplaced⟩ := ih hlater
      refine ⟨c :: a, b, by rw [ht]; rfl, fun new => ?_⟩
      have hskip : replaceAll (first :: rest) new (c :: t) =
          c :: replaceAll (first :: rest) new t := by
        simp only [replaceAll, replaceFrom, List.isPrefixOf_iff_prefix, if_neg hprefix]
      rw [hskip, hreplaced new]
      rfl

/-- Each occurrence that is replaced changes the length by the same amount. -/
theorem exists_length_replaceAll (hne : old ≠ []) (new t : Text) :
    ∃ k, (replaceAll old new t).length + k * old.length = t.length + k * new.length := by
  -- the induction is on the length of the text behind the first occurrence
  induction hlen : t.length using Nat.strongRecOn generalizing t with
  | ind n ih =>
    by_cases h : old <:+: t
    · obtain ⟨a, b, rfl, hreplaced⟩ := exists_first_occurrence hne h
      have hpos : 0 < old.length := List.length_pos_iff.2 hne
      simp only [List.length_append] at hlen
      obtain ⟨k, hk⟩ := ih b.length (by omega) b rfl
      refine ⟨k + 1, ?_⟩
      rw [hreplaced new]
      simp only [List.length_append, Nat.add_mul, Nat.one_mul]
      omega
    · have hsame : replaceAll old new t = t := replaceAll_of_not_infix h
      refine ⟨0, ?_⟩
      rw [hsame]
      omega

/-- A text is replaced by itself. -/
theorem replaceAll_self (old t : Text) : replaceAll old old t = t := by
  rcases eq_or_ne old [] with rfl | hne
  · rfl
  induction hlen : t.length using Nat.strongRecOn generalizing t with
  | ind n ih =>
    by_cases h : old <:+: t
    · obtain ⟨a, b, rfl, hreplaced⟩ := exists_first_occurrence hne h
      have hpos : 0 < old.length := List.length_pos_iff.2 hne
      simp only [List.length_append] at hlen
      rw [hreplaced old, ih b.length (by omega) b rfl]
    · exact replaceAll_of_not_infix h

/-- **A replacement changes every text in which something is replaced**, unless it is replaced by
itself. -/
theorem replaceAll_eq_self_iff (hne : old ≠ []) :
    replaceAll old new t = t ↔ new = old ∨ ¬old <:+: t := by
  constructor
  · intro hsame
    rw [or_iff_not_imp_right, not_not]
    intro h
    obtain ⟨a, b, rfl, hreplaced⟩ := exists_first_occurrence hne h
    rw [hreplaced new, List.append_right_inj] at hsame
    -- all replacements together leave the length as it is, so each of them does
    have hlength : new.length = old.length := by
      obtain ⟨k, hk⟩ := exists_length_replaceAll hne new b
      have htotal := congrArg List.length hsame
      simp only [List.length_append] at htotal
      have hmul : (k + 1) * new.length = (k + 1) * old.length := by
        simp only [Nat.add_mul, Nat.one_mul]
        omega
      exact Nat.eq_of_mul_eq_mul_left (Nat.succ_pos k) hmul
    exact (List.append_inj hsame hlength).1
  · rintro (rfl | h)
    · exact replaceAll_self _ t
    · exact replaceAll_of_not_infix h

end Text

namespace Store

variable {slots : List Text} {name t new : Text} {i : ℕ} {v : Scalar}

/-! ### The place of a value text -/

/-- The column at which the value text of a slot begins, behind the first equals sign and the
whitespace there. -/
def valueStart (t : Text) : ℕ :=
  (leftOf t).length + 1 + ((rightOf t).takeWhile isWhitespace).length

/-- The slot with a new text in the place of its value text, and nothing else changed. -/
def splice (t new : Text) : Text :=
  t.take (valueStart t) ++ (new ++ t.drop (valueStart t + (valueOf t).length))

theorem startsOutside_valueOf (t : Text) : StartsOutside isWhitespace (valueOf t) :=
  (isTrimmed_valueOf t).starts

theorem equals_not_mem_margin {w : Text} (hw : IsRun isWhitespace w) : '=' ∉ w := fun h =>
  absurd (hw _ h) (by decide)

/-- A slot is cut into what stands in front of its equals sign, its value text with the margins, and
the pieces behind that. -/
structure IsCut (t a b : Text) (more : List Text) : Prop where
  pieces : segments '=' t = leftOf t :: (a ++ (valueOf t ++ b)) :: more
  before : IsRun isWhitespace a
  behind : IsRun isWhitespace b

theorem exists_isCut (h : '=' ∈ t) : ∃ a b more, IsCut t a b more := by
  obtain ⟨more, hmore⟩ := exists_segments (rightOf t)
  obtain ⟨a, b, hmargins, ha, hb⟩ := exists_margins isWhitespace (leftOf (rightOf t))
  refine ⟨a, b, more, ?_, ha, hb⟩
  conv_lhs => rw [eq_leftOf_append h]
  rw [segments_append equals_not_mem_leftOf, hmore]
  exact congrArg (fun piece => leftOf t :: piece :: more) hmargins

namespace IsCut

variable {a b : Text} {more : List Text}

/-- The slot, put together again. -/
theorem text_eq (h : IsCut t a b more) :
    t = leftOf t ++ '=' :: (a ++ (valueOf t ++ (b ++ (more.map (['='] ++ ·)).flatten))) := by
  have ht := joinWith_segments '=' t
  rw [h.pieces, joinWith_cons, List.map_cons, List.flatten_cons] at ht
  conv_lhs => rw [← ht]
  simp only [List.append_assoc, List.cons_append, List.nil_append]

theorem valueStart_eq (h : IsCut t a b more) (hne : valueOf t ≠ []) :
    valueStart t = (leftOf t ++ '=' :: a).length := by
  have hright : rightOf t = a ++ (valueOf t ++ (b ++ (more.map (['='] ++ ·)).flatten)) := by
    conv_lhs => rw [h.text_eq]
    exact rightOf_append equals_not_mem_leftOf
  have htake : (rightOf t).takeWhile isWhitespace = a := by
    rw [hright]
    exact takeWhile_run h.before ((startsOutside_append_left hne).2 (startsOutside_valueOf t))
  rw [valueStart, htake, List.length_append, List.length_cons]
  omega

/-- **A splice changes the piece with the value text alone.** -/
theorem splice_eq (h : IsCut t a b more) (hne : valueOf t ≠ []) (new : Text) :
    splice t new = joinWith ['='] (leftOf t :: (a ++ (new ++ b)) :: more) := by
  have htext : t = (leftOf t ++ '=' :: a) ++
      (valueOf t ++ (b ++ (more.map (['='] ++ ·)).flatten)) := by
    conv_lhs => rw [h.text_eq]
    simp only [List.append_assoc, List.cons_append]
  have htake : t.take (valueStart t) = leftOf t ++ '=' :: a := by
    rw [h.valueStart_eq hne]
    conv_lhs => arg 2; rw [htext]
    exact List.take_left
  have hdrop : t.drop (valueStart t + (valueOf t).length) =
      b ++ (more.map (['='] ++ ·)).flatten := by
    rw [h.valueStart_eq hne, ← List.drop_drop]
    conv_lhs => arg 2; arg 2; rw [htext]
    rw [List.drop_left, List.drop_left]
  rw [splice, htake, hdrop, joinWith_cons, List.map_cons, List.flatten_cons]
  simp only [List.append_assoc, List.cons_append, List.nil_append]

/-- **A replacement changes the value text where it stands**, and may change the other pieces. -/
theorem segments_replaceAll_valueOf (h : IsCut t a b more) (hne : valueOf t ≠ [])
    (hnew : '=' ∉ new) : segments '=' (replaceAll (valueOf t) new t) =
      replaceAll (valueOf t) new (leftOf t) :: (a ++ (new ++ b)) ::
        more.map (replaceAll (valueOf t) new) := by
  have hstart := startsOutside_valueOf t
  have hpiece : replaceAll (valueOf t) new (a ++ (valueOf t ++ b)) = a ++ (new ++ b) := by
    rw [replaceAll_run_append h.before hstart, replaceAll_prefix hne, replaceAll_run h.behind hstart]
  rw [segments_replaceAll (equals_not_mem_valueOf t) hnew, h.pieces, List.map_cons, List.map_cons,
    hpiece]

theorem segments_splice (h : IsCut t a b more) (hne : valueOf t ≠ []) (hnew : '=' ∉ new) :
    segments '=' (splice t new) = leftOf t :: (a ++ (new ++ b)) :: more := by
  rw [h.splice_eq hne]
  apply segments_joinWith (by simp)
  intro piece hpiece
  rcases List.mem_cons.1 hpiece with rfl | hpiece
  · exact equals_not_mem_leftOf
  · rcases List.mem_cons.1 hpiece with rfl | hpiece
    · simp [equals_not_mem_margin h.before, equals_not_mem_margin h.behind, hnew]
    · have hmem : piece ∈ segments '=' t := by rw [h.pieces]; simp [hpiece]
      exact not_mem_of_mem_segments hmem

end IsCut

/-- **Replacing the value text everywhere is replacing it in one place** exactly if it occurs in no
other piece of the slot, or is replaced by itself. -/
theorem replaceAll_eq_splice_iff (h : '=' ∈ t) (hne : valueOf t ≠ []) (hnew : '=' ∉ new) :
    replaceAll (valueOf t) new t = splice t new ↔
      new = valueOf t ∨ ∀ piece ∈ (segments '=' t).eraseIdx 1, ¬valueOf t <:+: piece := by
  obtain ⟨a, b, more, hcut⟩ := exists_isCut h
  have hothers : (segments '=' t).eraseIdx 1 = leftOf t :: more := by rw [hcut.pieces]; rfl
  -- both texts are compared piece by piece
  have hreplaced := hcut.segments_replaceAll_valueOf hne hnew
  have hspliced := hcut.segments_splice hne hnew
  have hpieces : replaceAll (valueOf t) new t = splice t new ↔
      ∀ piece ∈ leftOf t :: more, replaceAll (valueOf t) new piece = piece := by
    have hmore : more.map (replaceAll (valueOf t) new) = more ↔
        ∀ piece ∈ more, replaceAll (valueOf t) new piece = piece := by
      have h := List.map_inj_left (l := more) (f := replaceAll (valueOf t) new) (g := id)
      rwa [List.map_id] at h
    rw [← segments_inj '=', hreplaced, hspliced, List.forall_mem_cons, ← hmore]
    simp only [List.cons.injEq, true_and]
  rw [hpieces, hothers]
  simp only [replaceAll_eq_self_iff hne, forall_or_left]

/-! ### Setting a value -/

/-- A number that can be read in a value text and another one that can be written make a new value
text. -/
theorem newValue_of_read {value rest number : Text} {y : Binary64}
    (hread : Numeral.read (value.drop (openingLength value)) = .ok (y, rest))
    (hnumber : v.numberText = .ok number) :
    newValue value v = .ok (value.take (openingLength value) ++ (number ++ rest)) := by
  unfold newValue
  simp only [hread, hnumber, List.append_assoc]

/-- A rewrite that is planned is carried out in memory. -/
theorem setOne_memory {r : Rewrite} (hplan : plan slots name v = .ok (some r)) (h : Host) :
    (setOne (.memory slots false) name v h).1 =
      .ok (some r, .memory (slots.set r.index r.after) false) := by
  obtain ⟨-, new, hr⟩ := replaces_of_plan hplan
  have hlt := hr.index_lt
  unfold setOne
  simp only [SlotSource.texts, hplan, SlotSource.setText, Bool.false_eq_true, if_false, hlt, if_true]

/-- **When replacing everywhere is replacing in one place.** Let the first slot of a name have a
number at the start of its value text, behind the opening, and let `new` be the value text with
another number in its place. What setting that number writes is the slot with `new` in the place of
its value text alone, exactly if `new` is the old value text or that occurs in no other piece of the
slot. In any case the piece behind the first equals sign is `new` between its margins, and the slot
keeps the number of its equals signs. -/
theorem setOne_splices_iff {rest number : Text} {y : Binary64} (hfirst : IsFirst slots name i t)
    (hequals : '=' ∈ t) (hv : v.IsNumeric) (hok : isAcceptable v = true)
    (hread : Numeral.read ((valueOf t).drop (openingLength (valueOf t))) = .ok (y, rest))
    (hnumber : v.numberText = .ok number)
    (hnew : new = (valueOf t).take (openingLength (valueOf t)) ++ (number ++ rest)) :
    ∃ after : Text,
      (∀ h, (setOne (.memory slots false) name v h).1 =
        .ok (some ⟨i, t, after⟩, .memory (slots.set i after) false)) ∧
      (∀ s h r s', s.texts = slots → (setOne s name v h).1 = .ok (some r, s') → r = ⟨i, t, after⟩) ∧
      (after = splice t new ↔
        new = valueOf t ∨ ∀ piece ∈ (segments '=' t).eraseIdx 1, ¬valueOf t <:+: piece) ∧
      (segments '=' after)[1]?.map trim = some new ∧ after.count '=' = t.count '=' := by
  have hvalue : valueOf t ≠ [] := by
    intro hnil
    obtain ⟨n, hn, -, htext, -, -⟩ := Numeral.exists_of_read hread
    rw [hnil, List.drop_nil] at htext
    exact Numeral.text_ne_nil hn.mantissa_ne (List.append_eq_nil_iff.1 htext.symm).1
  have hwritten : newValue (valueOf t) v = .ok new := hnew ▸ newValue_of_read hread hnumber
  obtain ⟨hne, htrimmed⟩ := isTrimmed_newValue hv hok (isTrimmed_valueOf t) hwritten
  have hno : '=' ∉ new := equals_not_mem_newValue hv hok (equals_not_mem_valueOf t) hwritten
  have hplan := plan_of_isFirst hfirst hequals hvalue hok hwritten
  obtain ⟨a, b, more, hcut⟩ := exists_isCut hequals
  refine ⟨_, setOne_memory hplan, fun s h r s' hs hset => ?_,
    replaceAll_eq_splice_iff hequals hvalue hno, ?_,
    count_replaceAll (equals_not_mem_valueOf t) hno t⟩
  · have hplanned := (plan_of_setOne hset).1
    rw [hs, hplan] at hplanned
    exact (Option.some.inj (Except.ok.inj hplanned)).symm
  · rw [hcut.segments_replaceAll_valueOf hvalue hno]
    have htrim : trim (a ++ (new ++ b)) = new := trimBy_margins hcut.before hcut.behind hne htrimmed
    simp [htrim]

/-- The value text of this slot stands in its name too, and both are changed. -/
theorem setOne_splices_iff_renamed : ∃ after : Text,
    (setOne (.memory ["\"w2in\" = 2in".toList] false) "w2in".toList (.int 10) {}).1 =
      .ok (some ⟨0, "\"w2in\" = 2in".toList, after⟩, .memory [after] false) ∧
    after ≠ splice "\"w2in\" = 2in".toList "10in".toList ∧
    (segments '=' after)[1]?.map trim = some "10in".toList ∧ after.count '=' = 1 := by
  have hfirst : IsFirst ["\"w2in\" = 2in".toList] "w2in".toList 0 "\"w2in\" = 2in".toList :=
    ⟨rfl, by decide, by simp⟩
  have hvalue : valueOf "\"w2in\" = 2in".toList = "2in".toList := by decide
  have hread : Numeral.read ((valueOf "\"w2in\" = 2in".toList).drop
      (openingLength (valueOf "\"w2in\" = 2in".toList))) =
        .ok (Measure.constant 2 0, "in".toList) := by decide +kernel
  have hnew : "10in".toList = (valueOf "\"w2in\" = 2in".toList).take
      (openingLength (valueOf "\"w2in\" = 2in".toList)) ++ ("10".toList ++ "in".toList) := by decide
  obtain ⟨after, hset, -, hsplice, hpiece, hcount⟩ := setOne_splices_iff (v := .int 10) hfirst
    (by decide) trivial rfl hread rfl hnew
  refine ⟨after, hset {}, fun hsame => ?_, hpiece, hcount⟩
  have hoccurs : valueOf "\"w2in\" = 2in".toList <:+: "\"w2in\" ".toList := by
    rw [hvalue, ← occursIn_iff]
    decide
  rcases hsplice.1 hsame with heq | hno
  · exact absurd heq (by decide)
  · exact hno "\"w2in\" ".toList (by decide) hoccurs

end Store

end EquationSheet
