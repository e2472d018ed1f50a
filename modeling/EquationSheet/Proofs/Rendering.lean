import EquationSheet.Binary64.Printer
import EquationSheet.Proofs.Numerals
import EquationSheet.Proofs.Rounding

/-!
# Numbers read back from their text

A finite number is written with its shortest digits, positional or with an exponent. Either way
the text is a numeral, and the decimal it denotes has the value of the decimal that was chosen, so
reading gives back the number, with the sign of zero.

* `isUnsigned_decimalText`: the text of a decimal is a numeral of the same value.
* `exists_numeral_textWith`: the text of a finite number is a numeral, and its value is the number.
* `read_toCompactText_append`: it is read back in front of any text that cannot extend it.
-/

namespace EquationSheet

open Text

/-- No zero stands in front of other digits, and a point has digits behind it. -/
structure Numeral.IsPlain (n : Numeral) : Prop where
  whole : n.whole = ['0'] ∨ n.whole ≠ [] ∧ StartsOutside (· == '0') n.whole
  fraction : n.fraction ≠ some []

namespace Binary64

/-- The digits of a natural are digits. -/
theorem isRun_digits (n : ℕ) : IsRun Char.isDigit (digits n) := fun _ hc =>
  Nat.isDigit_of_mem_toDigits (by decide) (by decide) hc

theorem isRun_zeros (n : ℕ) : IsRun Char.isDigit (List.replicate n '0') := by
  intro c hc
  rw [List.eq_of_mem_replicate hc]
  decide

/-- Behind its significant digits a natural has only zeros. -/
theorem exists_digits_eq (n : ℕ) :
    ∃ z, digits n = significantDigits n ++ List.replicate z '0' := by
  refine ⟨((digits n).reverse.takeWhile (· = '0')).length, ?_⟩
  have hzeros : (digits n).reverse.takeWhile (· = '0') =
      List.replicate ((digits n).reverse.takeWhile (· = '0')).length '0' := by
    refine List.eq_replicate_iff.2 ⟨rfl, fun c hc => ?_⟩
    simpa using List.mem_takeWhile_imp hc
  unfold significantDigits
  rw [← List.reverse_replicate, ← hzeros, ← List.reverse_append, List.takeWhile_append_dropWhile,
    List.reverse_reverse]

theorem isRun_significantDigits (n : ℕ) : IsRun Char.isDigit (significantDigits n) := by
  obtain ⟨z, hz⟩ := exists_digits_eq n
  have h := isRun_digits n
  rw [hz, isRun_append] at h
  exact h.1

/-- The digits of a natural that is not zero do not begin with a zero. -/
theorem digits_startsOutside {n : ℕ} (hn : n ≠ 0) : StartsOutside (· == '0') (digits n) := by
  induction n using Nat.strongRecOn with
  | ind n ih =>
    unfold digits
    by_cases hlt : n < 10
    · rw [Nat.toDigits_of_lt_base hlt]
      interval_cases n <;> simp_all
    · rw [Nat.toDigits_of_base_le (by decide) (by omega)]
      refine (startsOutside_append_left Nat.toDigits_ne_nil).2 (ih (n / 10) (by omega) (by omega))

theorem significantDigits_startsOutside (n : ℕ) : StartsOutside (· == '0') (significantDigits n) := by
  rcases eq_or_ne (significantDigits n) [] with hnil | hne
  · rw [hnil]
    simp
  · have hn : n ≠ 0 := by
      rintro rfl
      exact hne (by decide)
    obtain ⟨z, hz⟩ := exists_digits_eq n
    have hdigits := digits_startsOutside hn
    rw [hz] at hdigits
    exact (startsOutside_append_left hne).1 hdigits

/-- The number that digits stand for. -/
def digitsValue (ds : Text) : ℕ := Nat.ofDigitChars 10 ds 0

theorem digitsValue_append_zeros (ds : Text) (k : ℕ) :
    digitsValue (ds ++ List.replicate k '0') = digitsValue ds * 10 ^ k := by
  unfold digitsValue
  rw [Nat.ofDigitChars_append, Nat.ofDigitChars_replicate_zero, Nat.mul_comm]

theorem digitsValue_zeros_append (ds : Text) (k : ℕ) :
    digitsValue (List.replicate k '0' ++ ds) = digitsValue ds := by
  unfold digitsValue
  rw [Nat.ofDigitChars_append, Nat.ofDigitChars_replicate_zero, Nat.mul_zero]

theorem digitsValue_digits (n : ℕ) : digitsValue (digits n) = n := Nat.ofDigitChars_ten_toDigits

/-- Digits stand for a number below the power of ten of their length. -/
theorem digitsValue_lt {ds : Text} (hd : IsRun Char.isDigit ds) :
    digitsValue ds < 10 ^ ds.length := by
  have hbound : ∀ a : ℕ, Nat.ofDigitChars 10 ds a < (a + 1) * 10 ^ ds.length := by
    induction ds with
    | nil => simp [Nat.ofDigitChars]
    | cons d ds ih =>
      intro a
      obtain ⟨hdigit, hds⟩ := isRun_cons.1 hd
      have hle : d.toNat - '0'.toNat ≤ 9 := by
        have hnine : d.toNat ≤ 57 := by
          simp only [Char.isDigit, Bool.and_eq_true, decide_eq_true_eq] at hdigit
          exact hdigit.2
        have hzero : '0'.toNat = 48 := rfl
        omega
      rw [Nat.ofDigitChars_cons, List.length_cons, pow_succ']
      calc Nat.ofDigitChars 10 ds (10 * a + (d.toNat - '0'.toNat))
          < (10 * a + (d.toNat - '0'.toNat) + 1) * 10 ^ ds.length := ih hds _
        _ ≤ (a + 1) * 10 * 10 ^ ds.length := Nat.mul_le_mul_right _ (by omega)
        _ = (a + 1) * (10 * 10 ^ ds.length) := Nat.mul_assoc _ _ _
  simpa [digitsValue] using hbound 0

/-- A decimal is its significant digits, moved behind the point. -/
theorem value_eq_significant (d : Decimal) :
    d.value = digitsValue (significantDigits d.coefficient) *
      10 ^ ((digits d.coefficient).length + d.exponent -
        (significantDigits d.coefficient).length) := by
  obtain ⟨z, hz⟩ := exists_digits_eq d.coefficient
  have hcoeff := digitsValue_digits d.coefficient
  rw [hz, digitsValue_append_zeros] at hcoeff
  have hlen : ((digits d.coefficient).length : ℤ) =
      (significantDigits d.coefficient).length + z := by
    rw [hz]; simp
  unfold Decimal.value
  rw [hlen]
  conv_lhs => rw [← hcoeff]
  push_cast
  rw [mul_assoc, ← zpow_natCast (10 : ℚ) z, ← zpow_add₀ (by norm_num)]
  congr 2
  ring

/-! ### Unsigned texts -/

/-- The text is an unsigned numeral of the given value, plain, with a fraction or an exponent if
whole numbers get a fraction. -/
def IsUnsigned (tail : Option Text) (t : Text) (q : ℚ) : Prop :=
  ∃ n : Numeral, n.IsWellFormed ∧ n.sign = [] ∧ n.text = t ∧ n.decimal.value = q ∧ n.IsPlain ∧
    (tail.isSome = true → n.fraction.isSome = true ∨ n.exponent.isSome = true)

/-- The value of a numeral from its digits and the place of its point. -/
theorem value_decimal {n : Numeral} {v : ℕ} {e : ℤ} (hv : digitsValue n.mantissa = v)
    (he : n.exponentValue - n.fractionDigits.length = e) : n.decimal.value = v * 10 ^ e := by
  unfold digitsValue at hv
  unfold Numeral.decimal Decimal.value
  simp only [hv, he]

variable {ds : Text} {tail : Option Text} {k : ℕ}

/-- Positional notation, with zeros only behind a whole number. -/
theorem isUnsigned_positional (hd : IsRun Char.isDigit ds) (hne : ds ≠ [])
    (hlead : StartsOutside (· == '0') ds) (htail : tail.getD [] = List.replicate k '0')
    (hplain : tail ≠ some []) (point : ℤ) :
    IsUnsigned tail (positional (Numeral.fractionText tail) ds point)
      (digitsValue ds * 10 ^ (point - ds.length)) := by
  have hlen : 0 < ds.length := List.length_pos_iff.2 hne
  unfold positional
  split
  · -- zeros stand between the point and the digits
    rename_i hpoint
    refine ⟨⟨[], ['0'], some (List.replicate (-point).toNat '0' ++ ds), none⟩, ?_, rfl, ?_, ?_,
      ⟨.inl rfl, by simp [hne]⟩, by simp⟩
    · refine ⟨.inl rfl, by simp, ?_, .inl (by simp), by simp⟩
      simpa [Numeral.fractionDigits] using ⟨isRun_zeros _, hd⟩
    · simp [Numeral.text, Numeral.fractionText, Numeral.exponentText]
    · refine value_decimal ?_ ?_
      · have hzero := digitsValue_zeros_append (List.replicate (-point).toNat '0' ++ ds) 1
        exact hzero.trans (digitsValue_zeros_append ds _)
      · simp only [Numeral.exponentValue, Numeral.fractionDigits, Option.getD_some,
          List.length_append, List.length_replicate]
        omega
  rename_i hpoint
  simp only
  split
  · -- zeros stand between the digits and the point
    rename_i hwhole
    refine ⟨⟨[], ds ++ List.replicate (point.toNat - ds.length) '0', tail, none⟩, ?_, rfl, ?_, ?_,
      ⟨.inr ⟨by simp [hne], (startsOutside_append_left hne).2 hlead⟩, hplain⟩, .inl⟩
    · refine ⟨.inl rfl, isRun_append.2 ⟨hd, isRun_zeros _⟩, ?_, .inl (by simp [hne]), by simp⟩
      unfold Numeral.fractionDigits
      rw [htail]
      exact isRun_zeros k
    · simp [Numeral.text, Numeral.exponentText]
    · have hvalue : digitsValue
          (ds ++ List.replicate (point.toNat - ds.length) '0' ++ List.replicate k '0') =
          digitsValue ds * 10 ^ (point.toNat - ds.length) * 10 ^ k := by
        rw [digitsValue_append_zeros, digitsValue_append_zeros]
      have hexp : (point - ds.length : ℤ) = (point.toNat - ds.length : ℕ) := by omega
      rw [value_decimal (v := digitsValue ds * 10 ^ (point.toNat - ds.length) * 10 ^ k) (e := -k)
        (by simp only [Numeral.mantissa, Numeral.fractionDigits, htail]; exact hvalue)
        (by simp [Numeral.exponentValue, Numeral.fractionDigits, htail]), hexp]
      push_cast
      rw [zpow_neg, zpow_natCast, zpow_natCast, mul_assoc, mul_inv_cancel₀ (by positivity), mul_one]
  · -- the point stands among the digits
    rename_i hwhole
    have htake : ds.take point.toNat ≠ [] := by
      simp only [ne_eq, List.take_eq_nil_iff, hne, or_false]
      omega
    have htaken : StartsOutside (· == '0') (ds.take point.toNat) := by
      rw [← List.take_append_drop point.toNat ds] at hlead
      exact (startsOutside_append_left htake).1 hlead
    refine ⟨⟨[], ds.take point.toNat, some (ds.drop point.toNat), none⟩, ?_, rfl, ?_, ?_,
      ⟨.inr ⟨htake, htaken⟩, by simpa using by omega⟩, by simp⟩
    · have hsplit : IsRun Char.isDigit (ds.take point.toNat) ∧
          IsRun Char.isDigit (ds.drop point.toNat) := by
        rw [← isRun_append, List.take_append_drop]
        exact hd
      exact ⟨.inl rfl, hsplit.1, hsplit.2, .inl htake, by simp⟩
    · simp [Numeral.text, Numeral.fractionText, Numeral.exponentText]
    · refine value_decimal ?_ ?_
      · simp [Numeral.mantissa, Numeral.fractionDigits]
      · simp only [Numeral.exponentValue, Numeral.fractionDigits, Option.getD_some,
          List.length_drop]
        omega

/-- The exponent that is written has the value it was written for. -/
theorem value_exponent (e : ℤ) :
    (⟨'e', [if e < 0 then '-' else '+'],
      List.replicate (2 - (digits e.natAbs).length) '0' ++ digits e.natAbs⟩ : Exponent).value = e := by
  have hdigits := digitsValue_zeros_append (digits e.natAbs) (2 - (digits e.natAbs).length)
  rw [digitsValue_digits] at hdigits
  unfold digitsValue at hdigits
  simp only [Exponent.value, hdigits]
  split
  · rename_i h
    rw [if_pos rfl]
    omega
  · rename_i h
    rw [if_neg (by decide)]
    omega

/-- Notation with one digit before the point and an exponent. -/
theorem isUnsigned_scientific (hd : IsRun Char.isDigit ds) (hne : ds ≠ [])
    (hlead : StartsOutside (· == '0') ds) (tail : Option Text) (point : ℤ) :
    IsUnsigned tail (scientific ds point) (digitsValue ds * 10 ^ (point - ds.length)) := by
  obtain ⟨c, ds, rfl⟩ : ∃ c ds', ds = c :: ds' := List.exists_cons_of_ne_nil hne
  set e : Exponent := ⟨'e', [if point - 1 < 0 then '-' else '+'],
    List.replicate (2 - (digits (point - 1).natAbs).length) '0' ++ digits (point - 1).natAbs⟩
    with he
  have hwf : e.IsWellFormed := by
    refine ⟨rfl, ?_, isRun_append.2 ⟨isRun_zeros _, isRun_digits _⟩, ?_⟩
    · rw [he]; simp only; split <;> simp [IsSign]
    · simp [he, digits, Nat.toDigits_ne_nil]
  refine ⟨⟨[], [c], if ds.length = 0 then none else some ds, some e⟩, ?_, rfl, ?_, ?_,
    ⟨.inr ⟨by simp, by simpa using hlead⟩, by cases ds <;> simp⟩, by simp⟩
  · rw [isRun_cons] at hd
    refine ⟨.inl rfl, by simpa using hd.1, ?_, .inl (by simp), by simpa using hwf⟩
    unfold Numeral.fractionDigits
    split
    · simp
    · exact hd.2
  · unfold scientific Numeral.text
    cases ds <;> simp [Numeral.fractionText, Numeral.exponentText, Exponent.text, exponentText, he]
  · refine value_decimal ?_ ?_
    · cases ds <;> simp [Numeral.mantissa, Numeral.fractionDigits]
    · have hvalue : e.value = point - 1 := value_exponent (point - 1)
      cases ds with
      | nil => simp [Numeral.exponentValue, Numeral.fractionDigits, hvalue]
      | cons d ds =>
        simp only [Numeral.exponentValue, Numeral.fractionDigits, hvalue, List.length_cons]
        simp
        omega

/-- **The text of a decimal is a numeral of its value.** -/
theorem isUnsigned_decimalText (htail : tail.getD [] = List.replicate k '0') (hplain : tail ≠ some [])
    (d : Decimal) : IsUnsigned tail (decimalText (Numeral.fractionText tail) d) d.value := by
  rw [value_eq_significant]
  unfold decimalText
  simp only
  split
  · -- only zero has no significant digit
    rename_i hnil
    rw [List.isEmpty_iff.1 hnil]
    refine ⟨⟨[], ['0'], tail, none⟩, ?_, rfl, ?_, ?_, ⟨.inl rfl, hplain⟩, .inl⟩
    · refine ⟨.inl rfl, by simp, ?_, .inl (by simp), by simp⟩
      unfold Numeral.fractionDigits
      rw [htail]
      exact isRun_zeros k
    · simp [Numeral.text, Numeral.exponentText]
    · have hzero : digitsValue (List.replicate 1 '0' ++ tail.getD []) = 0 := by
        rw [digitsValue_zeros_append, htail, ← List.append_nil (List.replicate k '0')]
        exact digitsValue_zeros_append [] k
      rw [value_decimal (n := ⟨[], ['0'], tail, none⟩) hzero rfl]
      simp [digitsValue, Nat.ofDigitChars]
  · rename_i hne
    have hds : significantDigits d.coefficient ≠ [] := by simpa using hne
    have hlead := significantDigits_startsOutside d.coefficient
    split
    · exact isUnsigned_positional (isRun_significantDigits _) hds hlead htail hplain _
    · exact isUnsigned_scientific (isRun_significantDigits _) hds hlead tail _

/-! ### Signed texts -/

/-- **The text of a finite number is a numeral** whose value is the number, bit for bit. -/
theorem exists_numeral_textWith (tail : Option Text) {k : ℕ}
    (htail : tail.getD [] = List.replicate k '0') (hplain : tail ≠ some []) {x : Binary64}
    (hx : x.isFinite = true) :
    ∃ n : Numeral, n.IsWellFormed ∧ n.text = textWith (Numeral.fractionText tail) x ∧
      n.value = .ok x ∧ n.IsPlain ∧ n.sign ≠ ['+'] ∧
      (tail.isSome = true → n.fraction.isSome = true ∨ n.exponent.isSome = true) := by
  cases x with
  | infinite s => simp [isFinite] at hx
  | nan => simp [isFinite] at hx
  | finite s u hu =>
    obtain ⟨n, hwf, hsign, htext, hvalue, hplain, hfloat⟩ :=
      isUnsigned_decimalText htail hplain (Decimal.shortest u hu)
    have hnew : Numeral.IsWellFormed { n with sign := if s then ['-'] else [] } := by
      refine ⟨?_, hwf.whole, hwf.fraction, hwf.mantissa, hwf.exponent⟩
      cases s <;> simp [IsSign]
    refine ⟨_, hnew, ?_, Numeral.value_eq_ok_iff.2 ⟨hnew.mantissa_ne, ?_, hx⟩,
      ⟨hplain.whole, hplain.fraction⟩, by cases s <;> simp, hfloat⟩
    · simp only [textWith]
      rw [← htext]
      simp [Numeral.text, hsign]
    · have hneg : ((if s = true then ['-'] else []) == ['-']) = s := by cases s <;> rfl
      unfold Numeral.nearest
      simp only [hneg]
      rw [← Decimal.shortest_reads_back s hu]
      exact Decimal.toBinary64_congr s hvalue

theorem exists_numeral_toCompactText {x : Binary64} (hx : x.isFinite = true) :
    ∃ n : Numeral, n.IsWellFormed ∧ n.text = x.toCompactText ∧ n.value = .ok x := by
  obtain ⟨n, hwf, htext, hvalue, -⟩ := exists_numeral_textWith none (k := 0) rfl (by simp) hx
  exact ⟨n, hwf, htext, hvalue⟩

/-- With a fraction for whole numbers, the numeral of a number is plain and not that of an integer.
-/
theorem exists_numeral_toText {x : Binary64} (hx : x.isFinite = true) :
    ∃ n : Numeral, n.IsWellFormed ∧ n.text = x.toText ∧ n.value = .ok x ∧ n.IsPlain ∧
      n.sign ≠ ['+'] ∧ (n.fraction.isSome = true ∨ n.exponent.isSome = true) := by
  obtain ⟨n, hwf, htext, hvalue, hplain, hsign, hfloat⟩ :=
    exists_numeral_textWith (some ['0']) (k := 1) rfl (by simp) hx
  exact ⟨n, hwf, htext, hvalue, hplain, hsign, hfloat rfl⟩

/-- **A finite number is read back from its text**, in front of any text that cannot extend it. -/
theorem read_toCompactText_append {x : Binary64} (hx : x.isFinite = true) {rest : Text}
    (hr : Numeral.Stops rest) : Numeral.read (x.toCompactText ++ rest) = .ok (x, rest) := by
  obtain ⟨n, hwf, htext, hvalue⟩ := exists_numeral_toCompactText hx
  rw [← htext, Numeral.read_append hwf hr, hvalue]
  rfl

end Binary64

end EquationSheet
