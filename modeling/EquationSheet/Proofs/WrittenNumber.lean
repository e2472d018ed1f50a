import EquationSheet.Proofs.JsonTokens
import EquationSheet.Proofs.LongestMatch
import EquationSheet.Proofs.ReadBack

/-!
# The number that is written

Setting a number puts its text in the place of a numeral and keeps what stands behind that. The
numeral that was there ended before the rest; the new one is read again only if it does so too. A
point behind a whole number, or an exponent behind a number without one, would be read on.

* `Numeral.read_append_iff`: **a numeral is read in front of a rest** that does not extend it.
* `exists_numeral_numberText`: a number is written as a numeral, which has its value if it has one.
* `matchAt_setOne_iff`: **when the number that is written is the number that is read.**
* `setOne_misread`: two numbers that are written and not read.
-/

namespace EquationSheet

open Text

namespace Numeral

variable {n m : Numeral} {rest : Text} {x : Binary64}

/-! ### In front of a rest -/

/-- What does not extend a whole number extends no numeral. -/
theorem EndsBefore.stops (h : n.EndsBefore rest) (hfraction : n.fraction = none)
    (hexponent : n.exponent = none) : Stops rest :=
  ⟨h.digit, h.point hfraction hexponent, h.exponent hexponent⟩

/-- The longest numeral at the start of a text is known by its text. -/
theorem IsLongest.eq_of_text_eq {t : Text} (h : IsLongest n t) (hm : m.IsWellFormed)
    (htext : m.text = n.text) : m = n := by
  have hlongest : IsLongest m t := by
    refine ⟨hm, htext ▸ h.begins, fun k hk hbegins => ?_⟩
    rw [htext]
    exact h.longest k hk hbegins
  exact hlongest.eq_scan.trans h.eq_scan.symm

/-- **A numeral is read in front of a rest**, with its value, exactly if the rest does not extend
it. -/
theorem read_append_iff (hm : m.IsWellFormed) :
    read (m.text ++ rest) = .ok (x, rest) ↔ m.value = .ok x ∧ m.EndsBefore rest := by
  rw [read_eq_ok_iff]
  constructor
  · rintro ⟨n, hlongest, hvalue, hsplit⟩
    obtain rfl : m = n := hlongest.eq_of_text_eq hm (List.append_cancel_right hsplit)
    exact ⟨hvalue, (scan_append_iff hm).1 hlongest.scan_eq⟩
  · rintro ⟨hvalue, hends⟩
    have hscan := scan_of_endsBefore hm hends
    have hlongest := isLongest_scan (t := m.text ++ rest) (by rw [hscan]; exact hm)
    rw [hscan] at hlongest
    exact ⟨m, hlongest, hvalue, rfl⟩

/-- The number at a column ends where the rest of the text begins. -/
theorem matchAt_append_iff (a b c : Text) :
    matchAt (a ++ (b ++ c)) a.length = .ok (x, a.length + b.length) ↔
      read (b ++ c) = .ok (x, c) := by
  have hsuffix : suffixAt (a ++ (b ++ c)) a.length = b ++ c := by
    rw [suffixAt_natCast, List.drop_left]
  unfold matchAt
  rw [hsuffix]
  cases hread : read (b ++ c) with
  | error fault => simp
  | ok found =>
    obtain ⟨y, rest⟩ := found
    obtain ⟨n, -, -, hsplit⟩ := read_eq_ok_iff.1 hread
    have hlength := congrArg List.length hsplit
    simp only [List.length_append] at hlength
    simp only [List.length_append, Except.ok.injEq, Prod.mk.injEq, and_congr_right_iff]
    rintro rfl
    constructor
    · -- both rests end the text, and they are of one length
      intro hstop
      exact (List.append_inj' hsplit (by omega)).2.symm
    · rintro rfl
      omega

end Numeral

/-! ### The text of a number -/

/-- An integer has a number if it is not too large to be rounded. -/
theorem Scalar.roundInt_eq_ok_iff {k : ℤ} {x : Binary64} :
    roundInt k = .ok x ↔ Binary64.ofInt? k = some x := by
  -- opened as a function, as the rounding of an integer is
  generalize hround : roundInt = round
  delta roundInt at hround
  subst hround
  beta_reduce
  cases Binary64.ofInt? k <;> simp

/-- **The numeral of an integer is read as the integer**, rounded. -/
theorem Json.value_wholeNumeral_iff {k : ℤ} {x : Binary64} :
    (wholeNumeral k).value = .ok x ↔ Scalar.roundInt k = .ok x := by
  have hcoefficient : (wholeNumeral k).decimal.coefficient = k.natAbs := by
    have hmantissa : (wholeNumeral k).mantissa = Binary64.digits k.natAbs := List.append_nil _
    unfold Numeral.decimal
    rw [hmantissa]
    exact Binary64.digitsValue_digits k.natAbs
  have hsign : ((wholeNumeral k).sign == ['-']) = decide (k < 0) := by
    unfold wholeNumeral
    split <;> simp_all
  have hmantissa : (wholeNumeral k).mantissa ≠ [] := (wholeNumeral_isWellFormed k).mantissa_ne
  rw [Numeral.value_eq_ok_iff, Numeral.nearest, hsign,
    Decimal.toBinary64_of_exponent_eq_zero _ rfl, hcoefficient, Scalar.roundInt_eq_ok_iff,
    Binary64.ofInt?_eq_some_iff]
  exact and_iff_right hmantissa

namespace Store

variable {slots : List Text} {name number : Text} {v : Scalar} {r : Rewrite}

/-- **A number is written as a numeral**, and read as itself; an integer that is too large is
written, but not read. -/
theorem exists_numeral_numberText (hv : v.IsNumeric) (hok : isAcceptable v = true)
    (h : v.numberText = .ok number) :
    ∃ m : Numeral, m.IsWellFormed ∧ m.text = number ∧ ∀ x, m.value = .ok x ↔ v.operand = .ok x := by
  cases v with
  | int k =>
    have htext : (Json.wholeNumeral k).text = number := by
      simp only [Scalar.numberText, Scalar.textWith, Scalar.intText] at h
      split at h
      · simp at h
      · exact (Json.wholeNumeral_text k).trans (Except.ok.inj h)
    exact ⟨Json.wholeNumeral k, Json.wholeNumeral_isWellFormed k, htext,
      fun x => Json.value_wholeNumeral_iff⟩
  | float y =>
    obtain ⟨m, hm, htext, hvalue⟩ := Binary64.exists_numeral_toCompactText hok
    refine ⟨m, hm, htext.trans (Except.ok.inj h), fun x => ?_⟩
    simp only [hvalue, Scalar.operand, Except.ok.injEq]
  | text t => exact hv.elim
  | bool b => exact hv.elim
  | absent => exact hv.elim

/-- The opening of a value text ends where the number begins. -/
theorem openingLength_append {opening t : Text} (hopening : IsOpening opening)
    (hblank : StartsOutside isBlank t) (hquote : StartsOutside (· == '"') t) :
    openingLength (opening ++ t) = opening.length := by
  obtain ⟨quote, ws, hq, hws, rfl⟩ := hopening
  have hskip : (ws ++ t).skipBlanks = t := dropWhile_run hws hblank
  have hstart : StartsOutside (· == '"') (ws ++ t) :=
    startsOutside_append (hws.startsOutside fun c hc => by
      rcases isBlank_cases hc with rfl | rfl <;> decide) fun _ => hquote
  rcases hq with rfl | rfl
  · rw [List.nil_append]
    unfold openingLength
    split
    · rename_i rest heq
      rw [heq] at hstart
      simp at hstart
    · simp only [hskip, List.length_append]
      omega
  · simp only [openingLength, List.cons_append, List.nil_append, hskip, List.length_cons,
      List.length_append]
    omega

/-- A value text with a numeral behind its opening, and a rest that does not extend it. -/
structure IsNumbered (value opening : Text) (n : Numeral) (rest : Text) : Prop where
  isOpening : IsOpening opening
  isWellFormed : n.IsWellFormed
  text_eq : value = opening ++ (n.text ++ rest)
  ends : n.EndsBefore rest

/-- The opening of such a value text is told from the numeral. -/
theorem openingLength_numeral {opening rest : Text} {m : Numeral} (hopening : IsOpening opening)
    (hm : m.IsWellFormed) : openingLength (opening ++ (m.text ++ rest)) = opening.length := by
  have hblank : ∀ c, Numeral.isNumeralChar c = true → isBlank c = false := by
    intro c hc
    rw [← Bool.not_eq_true]
    intro hb
    rcases isBlank_cases hb with rfl | rfl <;> exact absurd hc (by decide)
  have hquote : ∀ c, Numeral.isNumeralChar c = true → (c == '"') = false := by
    intro c hc
    rw [beq_eq_false_iff_ne]
    rintro rfl
    exact absurd hc (by decide)
  exact openingLength_append hopening (Numeral.startsOutside_text hm hblank)
    (Numeral.startsOutside_text hm hquote)

/-- **When the number that is written is the number that is read.** Setting a number writes it in
the place of the numeral `n` behind the opening of the old value text, as a numeral `m` in front of
the same rest. Behind the opening of the new value text the number is read, up to the end of `m`,
exactly if it is not too large and the rest does not extend `m`, as it did not extend `n`. So it is
if `n` had neither a point nor an exponent. -/
theorem matchAt_setOne_iff {s s' : SlotSource} {h : Host} (hv : v.IsNumeric)
    (hset : (setOne s name v h).1 = .ok (some r, s')) :
    s'.texts = s.texts.set r.index r.after ∧
    ∃ (opening : Text) (n m : Numeral) (rest : Text), IsNumbered (valueOf r.before) opening n rest ∧
      m.IsWellFormed ∧ v.numberText = .ok m.text ∧
      valueOf r.after = opening ++ (m.text ++ rest) ∧
      openingLength (valueOf r.after) = opening.length ∧
      (∀ x, Numeral.matchAt (valueOf r.after) opening.length =
          .ok (x, opening.length + m.text.length) ↔ v.operand = .ok x ∧ m.EndsBefore rest) ∧
      (n.fraction = none → n.exponent = none → m.EndsBefore rest) := by
  obtain ⟨hplan, htexts⟩ := plan_of_setOne hset
  obtain ⟨hok, written, hr⟩ := replaces_of_plan hplan
  obtain ⟨opening, n, rest, number, hopening, hn, hscan, hnumber, hold, hnew⟩ :=
    exists_numeral_of_newValue hr.newValue
  obtain ⟨m, hm, rfl, hvalue⟩ := exists_numeral_numberText hv hok hnumber
  have hends : n.EndsBefore rest := (Numeral.scan_append_iff hn).1 hscan
  have hafter : valueOf r.after = opening ++ (m.text ++ rest) := (hr.valueOf_after hv hok).trans hnew
  refine ⟨htexts, opening, n, m, rest, ⟨hopening, hn, hold, hends⟩, hm, hnumber, hafter, ?_,
    fun x => ?_, ?_⟩
  · rw [hafter]
    exact openingLength_numeral hopening hm
  · rw [hafter, Numeral.matchAt_append_iff, Numeral.read_append_iff hm, hvalue]
  · intro hfraction hexponent
    exact (hends.stops hfraction hexponent).endsBefore m

/-- A number inside quotes, behind blanks, is read back where it was written. -/
theorem matchAt_setOne_iff_quoted :
    (setOne (.memory ["\"a\" = \" 5\" mm".toList] false) ['a'] (.int 7) {}).1 =
      .ok (some ⟨0, "\"a\" = \" 5\" mm".toList, "\"a\" = \" 7\" mm".toList⟩,
        .memory ["\"a\" = \" 7\" mm".toList] false) ∧
    ∃ (m : Numeral) (rest : Text), m.text = ['7'] ∧ m.EndsBefore rest ∧
      valueOf "\"a\" = \" 7\" mm".toList = ['"', ' '] ++ (m.text ++ rest) := by
  have hset : (setOne (.memory ["\"a\" = \" 5\" mm".toList] false) ['a'] (.int 7) {}).1 =
      .ok (some ⟨0, "\"a\" = \" 5\" mm".toList, "\"a\" = \" 7\" mm".toList⟩,
        .memory ["\"a\" = \" 7\" mm".toList] false) := by decide +kernel
  obtain ⟨-, opening, n, m, rest, -, -, hnumber, hafter, hlength, hread, -⟩ :=
    matchAt_setOne_iff (v := .int 7) trivial hset
  have hm : m.text = ['7'] := (Except.ok.inj hnumber).symm
  have hopening : opening = ['"', ' '] := by
    have htwo : opening.length = 2 := hlength.symm.trans (by decide)
    have htake := congrArg (List.take opening.length) hafter
    rw [List.take_left, htwo] at htake
    exact htake.symm.trans (by decide)
  rw [hopening, hm] at hread
  have hseven : Numeral.matchAt (valueOf "\"a\" = \" 7\" mm".toList) 2 =
      .ok (Measure.constant 7 0, 3) := by decide +kernel
  exact ⟨hset, m, rest, hm, ((hread _).1 hseven).2, hopening ▸ hafter⟩

/-- **The number that is written is not always the number that is read.** An integer beyond the
largest number is written all the same, and what was written cannot be read. A point that stood
behind a number with a point is kept behind a whole number, which reads on into it. -/
theorem setOne_misread :
    ((setOne (.memory ["\"a\"=1mm".toList] false) ['a'] (.int (10 ^ 309)) {}).1 =
        .ok (some ⟨0, "\"a\"=1mm".toList,
            "\"a\"=1".toList ++ (List.replicate 309 '0' ++ "mm".toList)⟩,
          .memory ["\"a\"=1".toList ++ (List.replicate 309 '0' ++ "mm".toList)] false) ∧
      Numeral.matchAt (valueOf ("\"a\"=1".toList ++ (List.replicate 309 '0' ++ "mm".toList))) 0 =
        .error ⟨.overflow, '1' :: (List.replicate 309 '0' ++ "mm".toList), 0⟩) ∧
    (setOne (.memory ["\"a\"=1.5.3mm".toList] false) ['a'] (.int 2) {}).1 =
        .ok (some ⟨0, "\"a\"=1.5.3mm".toList, "\"a\"=2.3mm".toList⟩,
          .memory ["\"a\"=2.3mm".toList] false) ∧
      (Scalar.int 2).numberText = .ok ['2'] ∧
      Numeral.matchAt (valueOf "\"a\"=2.3mm".toList) 0 = .ok (Measure.constant 23 (-1), 3) := by
  refine ⟨⟨by decide +kernel, by decide +kernel⟩, by decide +kernel, rfl, by decide +kernel⟩

end Store

end EquationSheet
