import EquationSheet.Proofs.WrittenNumber

/-!
# The text of a number, in front of other text

A number is written with its shortest digits: bare if it is whole, with a fraction, or with an
exponent. In each notation it is read back bit for bit in front of any text that does not begin with
a digit, a point or an exponent, and its text ends where that text begins. So a number is known from
its text.

* `StartsExponent`, `stops_iff`: the texts that could extend a number.
* `toCompactText_eq`: a whole number loses its fraction, and nothing else is cut off.
* `matchAt_toCompactText_append`: a number at a column.
* `forall_read_iff_stops`: no more can be allowed behind a number.
* `matchAt_toCompactText`: **a number is read back from its text**, in front of other text and
  alone.
-/

namespace EquationSheet

open Text

variable {t rest : Text}

/-! ### What could extend a number -/

namespace Numeral

/-- The text begins with the marker of an exponent, an optional sign and a digit. -/
def StartsExponent (rest : Text) : Prop :=
  ∃ (marker : Char) (sign : Text) (digit : Char) (behind : Text), isExponentMarker marker = true ∧
    IsSign sign ∧ digit.isDigit = true ∧ rest = marker :: (sign ++ digit :: behind)

/-- An exponent is scanned where a marker, an optional sign and a digit stand. -/
theorem scanExponent_eq_none_iff : (scanExponent rest).1 = none ↔ ¬StartsExponent rest := by
  constructor
  · rintro hnone ⟨marker, sign, digit, behind, hmarker, hsign, hdigit, rfl⟩
    have hstart : StartsOutside isSignChar (digit :: behind) :=
      startsOutside_cons.2 (isSignChar_of_isDigit hdigit)
    have hdigits : (scanDigits (digit :: behind)).1 ≠ [] := by simp [scanDigits, hdigit]
    simp [scanExponent, scanSign_append_of hsign hstart, hmarker, hdigits] at hnone
  · intro hstarts
    by_contra hsome
    obtain ⟨e, he⟩ := Option.ne_none_iff_exists'.1 hsome
    have hwf : e.IsWellFormed := isWellFormed_scanExponent rest e he
    obtain ⟨digit, digits, hdigits⟩ := List.exists_cons_of_ne_nil hwf.digits_ne
    have hdigit : digit.isDigit = true := hwf.digits digit (by simp [hdigits])
    have hsplit := scanExponent_append rest
    rw [he] at hsplit
    refine hstarts ⟨e.marker, e.sign, digit, digits ++ (scanExponent rest).2, hwf.marker, hwf.sign,
      hdigit, hsplit.symm.trans ?_⟩
    simp [exponentText, Exponent.text, hdigits]

/-- The texts that cannot extend any numeral. -/
theorem stops_iff : Stops rest ↔ StartsOutside Char.isDigit rest ∧
    StartsOutside (· == '.') rest ∧ ¬StartsExponent rest := by
  rw [← scanExponent_eq_none_iff]
  exact ⟨fun h => ⟨h.digit, h.point, h.exponent⟩, fun h => ⟨h.1, h.2.1, h.2.2⟩⟩

end Numeral

namespace Binary64

variable {x y : Binary64}

/-! ### Whole numbers are bare -/

/-- The fraction that whole numbers have in the long notation. -/
def pointZero : Text := ['.', '0']

/-- A text without a point and a zero at its end. -/
def withoutPointZero (t : Text) : Text :=
  if pointZero <:+ t then t.take (t.length - 2) else t

theorem withoutPointZero_append (t : Text) : withoutPointZero (t ++ pointZero) = t := by
  unfold withoutPointZero
  rw [if_pos (List.suffix_append t pointZero)]
  simp [pointZero]

/-- The text has no point and zero at its end, whatever stands in front of it. -/
def EndsOtherwise (t : Text) : Prop := ∀ a : Text, ¬pointZero <:+ a ++ t

theorem withoutPointZero_of_endsOtherwise (h : EndsOtherwise t) (a : Text) :
    withoutPointZero (a ++ t) = a ++ t := if_neg (h a)

theorem EndsOtherwise.append (h : EndsOtherwise t) (b : Text) : EndsOtherwise (b ++ t) := by
  intro a
  rw [← List.append_assoc]
  exact h (a ++ b)

theorem endsOtherwise_of_endsOutside (hne : t ≠ []) (h : EndsOutside (· == '0') t) :
    EndsOtherwise t := by
  rintro a ⟨b, hb⟩
  have hlast := congrArg List.getLast? hb
  rw [List.getLast?_append_of_ne_nil _ hne] at hlast
  have hzero := h '0' (by rw [← hlast]; simp [pointZero])
  exact absurd hzero (by decide)

/-- Two digits at the end are no point and zero. -/
theorem endsOtherwise_of_isRun (hlen : 2 ≤ t.length) (h : IsRun Char.isDigit t) :
    EndsOtherwise t := by
  intro a hsuffix
  have hle : pointZero.length ≤ t.length := hlen
  have hpoint : '.' ∈ t :=
    (List.suffix_of_suffix_length_le hsuffix (List.suffix_append a t) hle).subset
      (by simp [pointZero])
  exact absurd (h '.' hpoint) (by decide)

/-- The significant digits end in no zero. -/
theorem significantDigits_endsOutside (n : ℕ) : EndsOutside (· == '0') (significantDigits n) := by
  rw [endsOutside_iff_reverse]
  unfold significantDigits
  rw [List.reverse_reverse]
  exact startsOutside_dropWhile

/-- An exponent ends in at least two digits. -/
theorem endsOtherwise_scientific (ds : Text) (point : ℤ) : EndsOtherwise (scientific ds point) := by
  set e := digits (point - 1).natAbs with he
  have hrun : IsRun Char.isDigit (List.replicate (2 - e.length) '0' ++ e) :=
    isRun_append.2 ⟨isRun_zeros _, isRun_digits _⟩
  have hlen : 2 ≤ (List.replicate (2 - e.length) '0' ++ e).length := by
    rw [List.length_append, List.length_replicate]
    omega
  have hends := endsOtherwise_of_isRun hlen hrun
  have hsplit : scientific ds point = ds.take 1 ++ (if ds.length ≤ 1 then [] else '.' :: ds.drop 1) ++
      ['e', if point - 1 < 0 then '-' else '+'] ++ (List.replicate (2 - e.length) '0' ++ e) := by
    simp [scientific, exponentText, he]
  rw [hsplit]
  exact hends.append _

/-- The last significant digit ends a fraction. -/
theorem positional_pointZero {ds : Text} (hne : ds ≠ []) (hends : EndsOutside (· == '0') ds)
    (point : ℤ) :
    positional pointZero ds point = positional [] ds point ++ pointZero ∨
      positional pointZero ds point = positional [] ds point ∧
        EndsOtherwise (positional [] ds point) := by
  unfold positional
  split
  · have hsplit : '0' :: '.' :: (List.replicate (-point).toNat '0' ++ ds) =
        ('0' :: '.' :: List.replicate (-point).toNat '0') ++ ds := by simp
    rw [hsplit]
    exact .inr ⟨rfl, (endsOtherwise_of_endsOutside hne hends).append _⟩
  simp only
  split
  · exact .inl (by simp)
  · rename_i hfraction
    have hdrop : ds.drop point.toNat ≠ [] := by
      rw [ne_eq, List.drop_eq_nil_iff]
      omega
    have hdropped : EndsOutside (· == '0') (ds.drop point.toNat) := by
      intro c hc
      refine hends c ?_
      rw [← List.take_append_drop point.toNat ds, List.getLast?_append_of_ne_nil _ hdrop]
      exact hc
    have hsplit : ds.take point.toNat ++ '.' :: ds.drop point.toNat =
        (ds.take point.toNat ++ ['.']) ++ ds.drop point.toNat := by simp
    rw [hsplit]
    exact .inr ⟨rfl, (endsOtherwise_of_endsOutside hdrop hdropped).append _⟩

/-- **In the long notation a fraction is added to whole numbers**, and nothing else differs. -/
theorem decimalText_pointZero (d : Decimal) :
    decimalText pointZero d = decimalText [] d ++ pointZero ∨
      decimalText pointZero d = decimalText [] d ∧ EndsOtherwise (decimalText [] d) := by
  unfold decimalText
  simp only
  split
  · exact .inl rfl
  · rename_i hne
    split
    · exact positional_pointZero (by simpa using hne) (significantDigits_endsOutside _) _
    · exact .inr ⟨rfl, endsOtherwise_scientific _ _⟩

/-- **A number is written as in the long notation, without the fraction of a whole number.** -/
theorem toCompactText_eq (x : Binary64) : x.toCompactText = withoutPointZero x.toText := by
  cases x with
  | infinite s => cases s <;> decide
  | nan => decide
  | finite s u hu =>
    show (if s then ['-'] else []) ++ decimalText [] (Decimal.shortest u hu) =
      withoutPointZero ((if s then ['-'] else []) ++ decimalText pointZero (Decimal.shortest u hu))
    rcases decimalText_pointZero (Decimal.shortest u hu) with hlong | ⟨hlong, hends⟩
    · rw [hlong, ← List.append_assoc, withoutPointZero_append]
    · rw [hlong, withoutPointZero_of_endsOtherwise hends]

/-! ### Reading a number back -/

/-- **A number at a column is read back** in front of any text that cannot extend it, and ends where
that text begins. -/
theorem matchAt_toCompactText_append (hx : x.isFinite = true) (hr : Numeral.Stops rest)
    (before : Text) :
    Numeral.matchAt (before ++ (x.toCompactText ++ rest)) before.length =
      .ok (x, before.length + x.toCompactText.length) :=
  (Numeral.matchAt_append_iff before x.toCompactText rest).2 (read_toCompactText_append hx hr)

theorem parse_toCompactText (hx : x.isFinite = true) : Numeral.parse x.toCompactText = .ok x :=
  Numeral.parse_eq_ok_iff.2 (exists_numeral_toCompactText hx)

/-- **In front of other text the number and its end are known**: no two numbers begin alike. -/
theorem toCompactText_append_inj {rest' : Text} (hx : x.isFinite = true) (hy : y.isFinite = true)
    (hr : Numeral.Stops rest) (hr' : Numeral.Stops rest')
    (h : x.toCompactText ++ rest = y.toCompactText ++ rest') : x = y ∧ rest = rest' := by
  have hread := read_toCompactText_append hx hr
  rw [h, read_toCompactText_append hy hr'] at hread
  obtain ⟨hxy, hrest⟩ := Prod.mk.inj (Except.ok.inj hread)
  exact ⟨hxy.symm, hrest.symm⟩

/-- **No more can be allowed behind a number**: in front of any other text the number one is not
read back. -/
theorem forall_read_iff_stops :
    (∀ x : Binary64, x.isFinite = true →
      Numeral.read (x.toCompactText ++ rest) = .ok (x, rest)) ↔ Numeral.Stops rest := by
  constructor
  · intro h
    -- one is written as a whole number, which any point and any exponent extend
    have htext : toCompactText (.finite false one (by decide +kernel)) =
        Numeral.text ⟨[], ['1'], none, none⟩ := by decide +kernel
    have hwf : Numeral.IsWellFormed ⟨[], ['1'], none, none⟩ :=
      ⟨.inl rfl, by simp, by simp [Numeral.fractionDigits], .inl (by simp), by simp⟩
    have hread := h (.finite false one (by decide +kernel)) rfl
    rw [htext] at hread
    exact ((Numeral.read_append_iff hwf).1 hread).2.stops rfl rfl
  · intro hr x hx
    exact read_toCompactText_append hx hr

/-- **A finite number is read back from its text**, bit for bit, in front of any text that begins
with no digit, no point and no exponent. Its text alone is parsed to it, and two numbers never have
the same one. -/
theorem matchAt_toCompactText (hx : x.isFinite = true) :
    x.toCompactText = withoutPointZero x.toText ∧
    (∀ rest : Text, StartsOutside Char.isDigit rest → StartsOutside (· == '.') rest →
      ¬Numeral.StartsExponent rest →
      Numeral.matchAt (x.toCompactText ++ rest) 0 = .ok (x, x.toCompactText.length)) ∧
    Numeral.parse x.toCompactText = .ok x ∧
    ∀ y : Binary64, y.isFinite = true → y.toCompactText = x.toCompactText → y = x := by
  refine ⟨toCompactText_eq x, ?_, parse_toCompactText hx, ?_⟩
  · intro rest hdigit hpoint hexponent
    have hr : Numeral.Stops rest := Numeral.stops_iff.2 ⟨hdigit, hpoint, hexponent⟩
    simpa using matchAt_toCompactText_append hx hr []
  · intro y hy htext
    have hparse := parse_toCompactText hy
    rw [htext, parse_toCompactText hx] at hparse
    exact (Except.ok.inj hparse).symm

/-- Zero keeps its sign, also in front of a letter that opens no exponent. -/
theorem matchAt_toCompactText_zero :
    (Binary64.finite true 0 isMagnitude_zero).isFinite = true ∧
    Numeral.matchAt "-0em".toList 0 = .ok (.finite true 0 isMagnitude_zero, 2) ∧
    Numeral.parse "-0".toList = .ok (.finite true 0 isMagnitude_zero) := by
  have htext : toCompactText (.finite true 0 isMagnitude_zero) = "-0".toList := by decide +kernel
  obtain ⟨-, hmatch, hparse, -⟩ := matchAt_toCompactText (x := .finite true 0 isMagnitude_zero) rfl
  rw [htext] at hmatch hparse
  have hexponent : ¬Numeral.StartsExponent ['e', 'm'] :=
    Numeral.scanExponent_eq_none_iff.1 (by decide)
  exact ⟨rfl, hmatch ['e', 'm'] (startsOutside_cons.2 rfl) (startsOutside_cons.2 rfl) hexponent,
    hparse⟩

end Binary64

end EquationSheet
