import EquationSheet.Proofs.LongestMatch
import EquationSheet.Proofs.Nearest
import EquationSheet.Proofs.Rendering
import EquationSheet.Scalar

/-!
# The language of numerals and their values

A whole text is read as a numeral if it is one and its value is in the range of the format. What is
read is the number nearest to the rational number that the numeral denotes. The scanner alone takes
too much, as it also passes a lone sign, a lone point or an exponent without digits in front of it.
A general reader of numbers takes too much as well: blanks, underscores, digits of other scripts,
infinities. What both let through are the numerals.

* `rational`: the rational number that a numeral denotes.
* `value_eq_ok_iff_isNearest`: the value of a numeral is the number nearest to it.
* `parse_of_not_isNumeral`, `parse_of_isWellFormed`: a whole text, as no numeral and as one.
* `readText_of_scan`: the general reader on a text that the scanner passes.
* `parse_ok_iff_nearest`: **the texts that are read are the numerals in range**, each as the nearest
  number.
-/

namespace EquationSheet.Numeral

open Text Binary64

variable {n : Numeral} {t : Text} {x : Binary64}

/-! ### What a numeral denotes -/

/-- The numeral begins with a minus sign. -/
def isNegative (n : Numeral) : Bool := n.sign == ['-']

/-- **The rational number that a numeral denotes.** The digits before the point are a whole number,
those behind it a fraction, and the exponent is a power of ten. -/
def rational (n : Numeral) : ℚ :=
  signed n.isNegative
    ((digitsValue n.whole + digitsValue n.fractionDigits / 10 ^ n.fractionDigits.length) *
      10 ^ n.exponentValue)

/-- The digits of a numeral, read as one number, are those before and those behind the point. -/
theorem decimal_value_eq (n : Numeral) : n.decimal.value =
    (digitsValue n.whole + digitsValue n.fractionDigits / 10 ^ n.fractionDigits.length) *
      10 ^ n.exponentValue := by
  have hdigits : Nat.ofDigitChars 10 n.mantissa 0 =
      10 ^ n.fractionDigits.length * digitsValue n.whole + digitsValue n.fractionDigits := by
    unfold mantissa digitsValue
    rw [Nat.ofDigitChars_append, Nat.ofDigitChars_eq_ofDigitChars_zero]
  have hten : (10 : ℚ) ^ n.fractionDigits.length ≠ 0 := by positivity
  unfold decimal Decimal.value
  simp only [hdigits]
  rw [zpow_sub₀ (by norm_num), zpow_natCast]
  push_cast
  field_simp

theorem rational_eq (n : Numeral) : n.rational = signed n.isNegative n.decimal.value := by
  rw [decimal_value_eq]
  rfl

theorem abs_rational (n : Numeral) : |n.rational| = n.decimal.value := by
  rw [rational_eq, abs_signed, abs_of_nonneg]
  unfold Decimal.value
  positivity

/-! ### The value of a numeral -/

/-- **The value of a numeral is the number nearest to the rational number it denotes.** -/
theorem value_eq_ok_iff_isNearest (hn : n.IsWellFormed) :
    n.value = .ok x ↔ x.IsNearest n.isNegative n.rational := by
  rw [value_eq_ok_iff, rational_eq, ← Decimal.toBinary64_eq_iff_isNearest]
  exact and_iff_right hn.mantissa_ne

/-- A numeral has a value if it is in the range of the format. -/
theorem exists_value_iff (hn : n.IsWellFormed) :
    (∃ x, n.value = .ok x) ↔ |n.rational| < overflowBound := by
  rw [abs_rational, ← Decimal.isFinite_toBinary64_iff n.isNegative]
  constructor
  · rintro ⟨x, hx⟩
    obtain ⟨-, rfl, hfinite⟩ := value_eq_ok_iff.1 hx
    exact hfinite
  · intro hfinite
    exact ⟨n.nearest, hn.value_eq hfinite⟩

/-! ### Whole texts -/

/-- A text is a numeral in one way only. -/
theorem eq_of_text_eq {n' : Numeral} (hn : n.IsWellFormed) (hn' : n'.IsWellFormed)
    (h : n.text = n'.text) : n = n' := by
  have hscan := scan_of_isWellFormed hn
  rw [h, scan_of_isWellFormed hn'] at hscan
  exact (congrArg Prod.fst hscan).symm

/-- What the scanner passes as a whole is a numeral if it has a digit before its exponent. -/
theorem isNumeral_of_scan (hrest : (scan t).2 = []) (hm : (scan t).1.mantissa ≠ []) :
    IsNumeral t := by
  refine ⟨(scan t).1, isWellFormed_scan hm, ?_⟩
  have htext := scan_text t
  rwa [hrest, List.append_nil] at htext

/-- A text that is no numeral is refused for its mantissa. -/
theorem parse_of_not_isNumeral (h : ¬IsNumeral t) : parse t = .error ⟨.mantissa, t, 0⟩ := by
  unfold parse
  simp only
  split
  · rfl
  · rename_i hwhole
    have hrest : (scan t).2 = [] := by
      simp only [Bool.or_eq_true, not_or] at hwhole
      simpa using hwhole.2
    have hm : (scan t).1.mantissa = [] := by
      by_contra hm
      exact h (isNumeral_of_scan hrest hm)
    unfold value
    rw [hm]
    rfl

/-- A numeral is read with its value. -/
theorem parse_of_isWellFormed (hn : n.IsWellFormed) :
    parse n.text = n.value.mapError (⟨·, n.text, 0⟩) := by
  unfold parse
  rw [scan_of_isWellFormed hn]
  simp [text_ne_nil hn.mantissa_ne]

/-- Whatever is refused is refused as a malformed number, at the start of the text. -/
theorem kind_of_parse_error {error : ParseError} (h : parse t = .error error) :
    error.fault.kind = .malformedNumeral ∧ error.text = t ∧ error.position = 0 := by
  by_cases hnumeral : IsNumeral t
  · obtain ⟨n, hn, rfl⟩ := hnumeral
    rw [parse_of_isWellFormed hn] at h
    cases hvalue : n.value with
    | ok x => rw [hvalue] at h; simp [Except.mapError] at h
    | error fault =>
      rw [hvalue] at h
      obtain rfl := Except.error.inj h
      exact ⟨kind_of_value_error hvalue, rfl, rfl⟩
  · rw [parse_of_not_isNumeral hnumeral] at h
    obtain rfl := Except.error.inj h
    exact ⟨rfl, rfl, rfl⟩

/-! ### The general reader -/

/-- The scanner passes only code points of numerals, with or without a mantissa. -/
theorem isRun_of_scan (hrest : (scan t).2 = []) : IsRun isNumeralChar t := by
  have htext := scan_text t
  rw [hrest, List.append_nil] at htext
  -- with a digit put in front the parts make a numeral
  have hpadded : IsWellFormed { (scan t).1 with whole := '0' :: (scan t).1.whole } :=
    { sign := isSign_scanSign t
      whole := isRun_cons.2 ⟨by decide, isRun_scanDigits _⟩
      fraction := isRun_scanFraction _
      mantissa := .inl (by simp)
      exponent := isWellFormed_scanExponent _ }
  have hrun := hpadded.isRun_text
  unfold text at hrun htext
  simp only [isRun_append, isRun_cons] at hrun
  rw [← htext]
  simp only [isRun_append]
  exact ⟨⟨⟨hrun.1.1.1, hrun.1.1.2.2⟩, hrun.1.2⟩, hrun.2⟩

theorem isMargin_of_isNumeralChar {c : Char} (h : isNumeralChar c = true) :
    Scalar.isMargin c = false := by
  simp [Scalar.isMargin, isWhitespace_of_isNumeralChar h]

theorem asciiDigit_of_isNumeralChar {c : Char} (h : isNumeralChar c = true) :
    Scalar.asciiDigit c = c := by
  have hbounds := bounds_of_isNumeralChar h
  unfold Scalar.asciiDigit
  rw [if_pos (by omega)]

/-- There are no underscores to be removed. -/
theorem withoutUnderscores_of_isRun (h : IsRun isNumeralChar t) (afterDigit : Bool) :
    Scalar.withoutUnderscores afterDigit t = some t := by
  induction t generalizing afterDigit with
  | nil => rfl
  | cons c t ih =>
    obtain ⟨hc, ht⟩ := isRun_cons.1 h
    have hne : c ≠ '_' := by
      rintro rfl
      exact absurd hc (by decide)
    simp only [Scalar.withoutUnderscores, if_neg hne, ih ht, Option.map_some]

/-- No code point of a numeral begins the name of a number that is not finite. -/
theorem toLower_of_isNumeralChar {c : Char} (h : isNumeralChar c = true) :
    c.toLower ≠ 'i' ∧ c.toLower ≠ 'n' := by
  simp only [isNumeralChar, isSignChar, isExponentMarker, Bool.or_eq_true, beq_iff_eq] at h
  rcases h with ((hdigit | rfl | rfl) | rfl) | rfl | rfl
  · have hbounds := toNat_of_isDigit hdigit
    have hlower : c.toLower = c := by
      unfold Char.toLower
      rw [dif_neg]
      rintro ⟨hletter, -⟩
      have hge : 65 ≤ c.toNat := by simpa [UInt32.le_iff_toNat_le] using hletter
      omega
    rw [hlower]
    constructor <;> rintro rfl <;> exact absurd hdigit (by decide)
  all_goals decide

theorem specialName?_of_isRun (h : IsRun isNumeralChar t) (negative : Bool) :
    Scalar.specialName? negative (t.map Char.toLower) = none := by
  cases t with
  | nil => rfl
  | cons c t =>
    obtain ⟨hi, hn⟩ := toLower_of_isNumeralChar (isRun_cons.1 h).1
    simp [Scalar.specialName?, hi, hn]

/-- **The general reader agrees** on what the scanner passes as a whole: a number, if there is a
digit before the exponent. -/
theorem readText_of_scan (hrest : (scan t).2 = []) :
    Scalar.readText t =
      if (scan t).1.mantissa = [] then .error .unreadable else .ok (scan t).1.nearest := by
  have hrun := isRun_of_scan hrest
  have htrim : trimBy Scalar.isMargin t = t :=
    trimBy_of_isTrimmed (hrun.isTrimmed fun _ => isMargin_of_isNumeralChar)
  have hascii : t.map Scalar.asciiDigit = t := by
    conv_rhs => rw [← List.map_id t]
    exact List.map_congr_left fun c hc => asciiDigit_of_isNumeralChar (hrun c hc)
  have hname : IsRun isNumeralChar (scanSign t).2 := by
    have h := hrun
    rw [← scanSign_append t, isRun_append] at h
    exact h.2
  unfold Scalar.readText
  rw [htrim, hascii, withoutUnderscores_of_isRun hrun]
  by_cases hm : (scan t).1.mantissa = []
  · simp [hrest, hm, specialName?_of_isRun hname]
  · simp [hrest, hm, nearest]

/-- A whole text is read if the scanner passes it and the general reader finds a finite number. -/
theorem parse_eq_ok_iff_readText :
    parse t = .ok x ↔ (scan t).2 = [] ∧ Scalar.readText t = .ok x ∧ x.isFinite = true := by
  rw [parse_eq_ok_iff]
  constructor
  · rintro ⟨n, hn, rfl, hvalue⟩
    obtain ⟨hm, hnearest, hfinite⟩ := value_eq_ok_iff.1 hvalue
    have hscan := scan_of_isWellFormed hn
    have hrest : (scan n.text).2 = [] := by rw [hscan]
    refine ⟨hrest, ?_, hfinite⟩
    rw [readText_of_scan hrest, hscan, if_neg hm, hnearest]
  · rintro ⟨hrest, hread, hfinite⟩
    have htext := scan_text t
    rw [hrest, List.append_nil] at htext
    rw [readText_of_scan hrest] at hread
    split at hread
    · simp at hread
    · rename_i hm
      have hnearest : (scan t).1.nearest = x := Except.ok.inj hread
      exact ⟨(scan t).1, isWellFormed_scan hm, htext, value_eq_ok_iff.2 ⟨hm, hnearest, hfinite⟩⟩

/-! ### The language -/

/-- **The texts that are read as numerals are those of the grammar whose value is in range**, and
each is read as the number nearest to the one rational number that it denotes. Any other text is
refused as a malformed number. They are also the texts that both the scanner passes as a whole and
the general reader finds a finite number in. -/
theorem parse_ok_iff_nearest (t : Text) :
    (∀ x, parse t = .ok x ↔
      ∃ n : Numeral, n.IsWellFormed ∧ n.text = t ∧ x.IsNearest n.isNegative n.rational) ∧
    ((∃ x, parse t = .ok x) ↔
      ∃ n : Numeral, n.IsWellFormed ∧ n.text = t ∧ |n.rational| < overflowBound) ∧
    (∀ n n' : Numeral, n.IsWellFormed → n'.IsWellFormed → n.text = t → n'.text = t → n = n') ∧
    (∀ error, parse t = .error error →
      error.fault.kind = .malformedNumeral ∧ error.text = t ∧ error.position = 0) ∧
    ∀ x, parse t = .ok x ↔
      (scan t).2 = [] ∧ Scalar.readText t = .ok x ∧ x.isFinite = true := by
  refine ⟨fun x => ?_, ?_, ?_, fun error => kind_of_parse_error, fun x => parse_eq_ok_iff_readText⟩
  · rw [parse_eq_ok_iff]
    exact exists_congr fun n => and_congr_right fun hn =>
      and_congr_right fun _ => value_eq_ok_iff_isNearest hn
  · constructor
    · rintro ⟨x, hx⟩
      obtain ⟨n, hn, htext, hvalue⟩ := parse_eq_ok_iff.1 hx
      exact ⟨n, hn, htext, (exists_value_iff hn).1 ⟨x, hvalue⟩⟩
    · rintro ⟨n, hn, htext, hrange⟩
      obtain ⟨x, hvalue⟩ := (exists_value_iff hn).2 hrange
      exact ⟨x, parse_eq_ok_iff.2 ⟨n, hn, htext, hvalue⟩⟩
  · intro n n' hn hn' htext htext'
    exact eq_of_text_eq hn hn' (htext.trans htext'.symm)

-- half way between two numbers the even one is read, and zero keeps its sign
example : parse "9007199254740993".toList = parse "9007199254740992".toList := by decide +kernel
example : parse "-.0e5".toList = .ok (.finite true 0 isMagnitude_zero) := by decide +kernel

end EquationSheet.Numeral
