import EquationSheet.Json.Printer
import EquationSheet.Json.Reader
import EquationSheet.Proofs.Rendering

/-!
# Tokens of JSON texts read back

Strings and numbers of a JSON text, in front of a text that cannot extend them. A string is written
unit by unit, so that half a surrogate pair is as good as any other unit. A number that is not finite
is a word of the grammar.

* `readString_units`: a string is read back from its units.
* `readNumber_intText`: so is an integer that is not too long.
* `readNumber_toText`: so is a finite number, bit for bit, and never as an integer.
-/

namespace EquationSheet.Json

open Text

/-! ### Strings -/

section Strings

variable {t : Text} {u : UInt16}

theorem hexValue?_hexDigit {n : ℕ} (hn : n < 16) : hexValue? (hexDigit n) = some n := by
  interval_cases n <;> rfl

theorem hexadecimal_four (n : ℕ) : hexadecimal 4 n =
    [hexDigit (n / 4096 % 16), hexDigit (n / 256 % 16), hexDigit (n / 16 % 16), hexDigit (n % 16)] := by
  simp only [hexadecimal, Nat.div_div_eq_div_mul, List.nil_append, List.cons_append]

theorem hexUnit?_hexadecimal (u : UInt16) : hexUnit? (hexDigit (u.toNat / 4096 % 16))
    (hexDigit (u.toNat / 256 % 16)) (hexDigit (u.toNat / 16 % 16)) (hexDigit (u.toNat % 16)) =
      some u := by
  have hlt := u.toNat_lt
  have hvalue : ((u.toNat / 4096 % 16 * 16 + u.toNat / 256 % 16) * 16 + u.toNat / 16 % 16) * 16 +
      u.toNat % 16 = u.toNat := by omega
  have hdigit := fun n => hexValue?_hexDigit (n := n % 16) (Nat.mod_lt n (by decide))
  simp only [hexUnit?, hdigit, bind, Option.bind, pure, hvalue, UInt16.ofNat_toNat]

/-- A unit in front of what is read behind it. -/
def readUnit (u : UInt16) (t : Text) : Option (Units × Text) :=
  (readString t).map fun read => (u :: read.1, read.2)

theorem readString_escape {c : Char} (hc : c ≠ 'u') (hu : escapeUnit? c = some u) :
    readString ('\\' :: c :: t) = readUnit u t := by
  rw [readString.eq_4 c t fun _ _ _ _ _ h _ => hc h, hu]
  cases h : readString t <;> simp [readUnit, h]

theorem readString_hexadecimal :
    readString ('\\' :: 'u' :: (hexadecimal 4 u.toNat ++ t)) = readUnit u t := by
  rw [hexadecimal_four]
  simp only [List.cons_append, List.nil_append]
  rw [readString.eq_3, hexUnit?_hexadecimal]
  cases h : readString t <;> simp [readUnit, h]

theorem toNat_ofNat_of_lt {n : ℕ} (hn : n < 127) : (Char.ofNat n).toNat = n := by
  unfold Char.ofNat
  rw [dif_pos (.inl (by omega))]
  rfl

/-- A printable unit is written as it is. -/
theorem readString_printable (hlow : 32 ≤ u) (hhigh : u < 127) (hquote : u ≠ 34)
    (hescape : u ≠ 92) : readString (Char.ofNat u.toNat :: t) = readUnit u t := by
  have hn : u.toNat < 127 := hhigh
  have hlow' : 32 ≤ u.toNat := hlow
  have htoNat := toNat_ofNat_of_lt hn
  have hne : ∀ v : UInt16, u ≠ v → (Char.ofNat u.toNat).toNat ≠ v.toNat := fun v hv h =>
    hv (UInt16.toNat_inj.1 (htoNat.symm.trans h))
  have hc : Char.ofNat u.toNat ≠ '"' := fun h => hne 34 hquote (by rw [h]; rfl)
  have hb : Char.ofNat u.toNat ≠ '\\' := fun h => hne 92 hescape (by rw [h]; rfl)
  have hunits : charUnits (Char.ofNat u.toNat) = [u] := by
    unfold charUnits
    simp only [htoNat]
    rw [if_pos (by omega), UInt16.ofNat_toNat]
  rw [readString.eq_5 _ t (fun h => hc h) (fun _ _ _ _ _ h _ => hb h) (fun _ _ h _ => hb h),
    if_neg (by simp [hb]; omega), hunits]
  cases h : readString t <;> simp [readUnit, h]

/-- **A unit is read back from its text.** -/
theorem readString_unitText (u : UInt16) (t : Text) :
    readString (unitText u ++ t) = readUnit u t := by
  unfold unitText
  split_ifs with hquote hescape h10 h13 h9 h12 h8 hplain
  · exact readString_escape (by decide) (hquote ▸ rfl)
  · exact readString_escape (by decide) (hescape ▸ rfl)
  · exact readString_escape (by decide) (h10 ▸ rfl)
  · exact readString_escape (by decide) (h13 ▸ rfl)
  · exact readString_escape (by decide) (h9 ▸ rfl)
  · exact readString_escape (by decide) (h12 ▸ rfl)
  · exact readString_escape (by decide) (h8 ▸ rfl)
  · exact readString_printable hplain.1 hplain.2 hquote hescape
  · exact readString_hexadecimal

/-- **A string is read back** up to its closing quote. -/
theorem readString_units (s : Units) (rest : Text) :
    readString (s.flatMap unitText ++ '"' :: rest) = some (s, rest) := by
  induction s with
  | nil => simp [readString]
  | cons u s ih =>
    rw [List.flatMap_cons, List.append_assoc, readString_unitText, readUnit, ih]
    rfl

end Strings

/-! ### Numbers -/

section Numbers

open Numeral

variable {n : Numeral} {rest : Text}

theorem readWhole_append (hrun : IsRun Char.isDigit n.whole) (hplain : n.IsPlain)
    (hrest : StartsOutside Char.isDigit rest) : readWhole (n.whole ++ rest) = some (n.whole, rest) := by
  rcases hplain.whole with hzero | ⟨hne, hlead⟩
  · simp [hzero, readWhole]
  · obtain ⟨c, ds, hw⟩ := List.exists_cons_of_ne_nil hne
    have hc : c ≠ '0' := by simpa [hw] using hlead
    have hscan := scanDigits_run hrun hrest
    rw [readWhole.eq_def]
    split
    · rename_i heq
      rw [hw, List.cons_append] at heq
      exact absurd (List.cons.inj heq).1 hc
    · simp [hscan, hne]

theorem readFraction_append (hrun : IsRun Char.isDigit n.fractionDigits) (hplain : n.IsPlain)
    (hdigit : StartsOutside Char.isDigit rest) (hpoint : StartsOutside (· == '.') rest) :
    readFraction (fractionText n.fraction ++ rest) = (n.fraction, rest) := by
  unfold readFraction
  rw [scanFraction_append_of hrun hdigit fun _ => hpoint]
  rcases hf : n.fraction with - | ds
  · simp [fractionText]
  · cases ds with
    | nil => exact absurd hf hplain.fraction
    | cons d ds => rfl

/-- The number that a numeral is: an integer without a fraction and without an exponent. -/
def numberOf (n : Numeral) : Option Json :=
  if n.fraction.isSome || n.exponent.isSome then some (float n.nearest)
  else (Scalar.readInt (n.sign ++ n.whole)).toOption.map int

/-- **A plain numeral is read whole** in front of a text that cannot extend it. -/
theorem readNumber_append (hn : n.IsWellFormed) (hplain : n.IsPlain) (hsign : n.sign ≠ ['+'])
    (hr : Stops rest) : readNumber (n.text ++ rest) = (numberOf n).map (·, rest) := by
  have hdigit : StartsOutside Char.isDigit (exponentText n.exponent ++ rest) :=
    exponentText_startsOutside hn.exponent (fun _ => isDigit_of_isExponentMarker) fun _ => hr.digit
  have hpoint : StartsOutside (· == '.') (exponentText n.exponent ++ rest) :=
    exponentText_startsOutside hn.exponent (fun _ => ne_point_of_isExponentMarker) fun _ => hr.point
  have hafter : StartsOutside Char.isDigit
      (fractionText n.fraction ++ (exponentText n.exponent ++ rest)) :=
    fractionText_startsOutside (by decide) hdigit
  have hwhole := readWhole_append hn.whole hplain hafter
  have hfraction := readFraction_append hn.fraction hplain hdigit hpoint
  have hexponent := scanExponent_append_of hn.exponent hr.digit fun _ => hr.exponent
  have hstart := mantissa_startsOutside hn (exponentText n.exponent ++ rest)
  rw [Numeral.text, List.append_assoc, List.append_assoc, List.append_assoc, readNumber.eq_def]
  split
  rename_i sign t heq
  -- the sign is told from the first character, which is a digit if there is none
  have hread : sign = n.sign ∧
      t = n.whole ++ (fractionText n.fraction ++ (exponentText n.exponent ++ rest)) := by
    rcases hn.sign with h | h | h
    · rw [h, List.nil_append] at heq
      split at heq
      · rename_i hbody
        simp [hbody, isSignChar] at hstart
      · simpa [h, eq_comm] using heq
    · exact absurd h hsign
    · simpa [h, eq_comm] using heq
  simp only [hread, hwhole, hfraction, hexponent, numberOf, nearest]
  split
  · rfl
  · cases Scalar.readInt (n.sign ++ n.whole) <;> rfl

/-- **A finite number is read back**, bit for bit. -/
theorem readNumber_toText {x : Binary64} (hx : x.isFinite = true) (hr : Stops rest) :
    readNumber (x.toText ++ rest) = some (float x, rest) := by
  obtain ⟨n, hwf, htext, hvalue, hplain, hsign, hfloat⟩ := Binary64.exists_numeral_toText hx
  have hnearest : n.nearest = x := (value_eq_ok_iff.1 hvalue).2.1
  rw [← htext, readNumber_append hwf hplain hsign hr, numberOf, if_pos (by simpa using hfloat),
    hnearest]
  rfl

/-- A digit or a minus sign and a digit begin a number. -/
def StartsNumber (t : Text) : Prop :=
  ∃ d ds, d.isDigit = true ∧ (t = d :: ds ∨ t = '-' :: d :: ds)

theorem StartsNumber.append {t : Text} (ht : StartsNumber t) (rest : Text) :
    StartsNumber (t ++ rest) := by
  obtain ⟨d, ds, hd, rfl | rfl⟩ := ht
  · exact ⟨d, ds ++ rest, hd, .inl rfl⟩
  · exact ⟨d, ds ++ rest, hd, .inr rfl⟩

/-- No word begins as a number does. -/
theorem StartsNumber.readWord_eq_none {t : Text} (ht : StartsNumber t) : readWord t = none := by
  have hother : ∀ {c d : Char}, d.isDigit = true → c.isDigit = false → (c == d) = false := by
    intro c d hd hc
    refine beq_eq_false_iff_ne.2 ?_
    rintro rfl
    simp [hd] at hc
  obtain ⟨d, ds, hd, ht⟩ := ht
  have hn : ('n' == d) = false := hother hd (by decide)
  have ht' : ('t' == d) = false := hother hd (by decide)
  have hf : ('f' == d) = false := hother hd (by decide)
  have hN : ('N' == d) = false := hother hd (by decide)
  have hI : ('I' == d) = false := hother hd (by decide)
  have hm : ('-' == d) = false := hother hd (by decide)
  rcases ht with rfl | rfl
  · simp [readWord, words, List.find?, List.isPrefixOf, hn, ht', hf, hN, hI, hm]
  · simp [readWord, words, List.find?, List.isPrefixOf, hI]

theorem startsNumber_text (hn : n.IsWellFormed) (hplain : n.IsPlain) (hsign : n.sign ≠ ['+']) :
    StartsNumber n.text := by
  have hwhole : n.whole ≠ [] := by
    rcases hplain.whole with h | h
    · simp [h]
    · exact h.1
  obtain ⟨d, ds, hw⟩ := List.exists_cons_of_ne_nil hwhole
  have hd : d.isDigit = true := hn.whole d (by simp [hw])
  rcases hn.sign with h | h | h
  · exact ⟨d, ds ++ fractionText n.fraction ++ exponentText n.exponent, hd, .inl (by
      simp [Numeral.text, h, hw])⟩
  · exact absurd h hsign
  · exact ⟨d, ds ++ fractionText n.fraction ++ exponentText n.exponent, hd, .inr (by
      simp [Numeral.text, h, hw])⟩

theorem startsNumber_toText {x : Binary64} (hx : x.isFinite = true) : StartsNumber x.toText := by
  obtain ⟨n, hwf, htext, -, hplain, hsign, -⟩ := Binary64.exists_numeral_toText hx
  exact htext ▸ startsNumber_text hwf hplain hsign

/-- The numeral of an integer. -/
def wholeNumeral (k : ℤ) : Numeral :=
  ⟨if k < 0 then ['-'] else [], Binary64.digits k.natAbs, none, none⟩

theorem wholeNumeral_text (k : ℤ) : (wholeNumeral k).text = intText k := by
  unfold wholeNumeral intText Numeral.text Binary64.digits
  split <;> simp [fractionText, exponentText]

theorem wholeNumeral_isWellFormed (k : ℤ) : (wholeNumeral k).IsWellFormed where
  sign := by unfold wholeNumeral; split <;> simp [IsSign]
  whole := Binary64.isRun_digits _
  fraction := by simp [wholeNumeral, fractionDigits]
  mantissa := .inl Nat.toDigits_ne_nil
  exponent := by simp [wholeNumeral]

theorem wholeNumeral_isPlain (k : ℤ) : (wholeNumeral k).IsPlain where
  whole := by
    rcases eq_or_ne k.natAbs 0 with h | h
    · exact .inl (by rw [wholeNumeral, h]; rfl)
    · exact .inr ⟨Nat.toDigits_ne_nil, Binary64.digits_startsOutside h⟩
  fraction := by simp [wholeNumeral]

theorem wholeNumeral_sign_ne (k : ℤ) : (wholeNumeral k).sign ≠ ['+'] := by
  unfold wholeNumeral
  split <;> simp

theorem startsNumber_intText (k : ℤ) : StartsNumber (intText k) :=
  wholeNumeral_text k ▸ startsNumber_text (wholeNumeral_isWellFormed k) (wholeNumeral_isPlain k)
    (wholeNumeral_sign_ne k)

/-- An integer that is not longer than integers are ever written. -/
def IsShort (k : ℤ) : Prop := (Nat.toDigits 10 k.natAbs).length ≤ Scalar.maxDigits

/-- **A short integer is read back.** -/
theorem readNumber_intText {k : ℤ} (hk : IsShort k) (hr : Stops rest) :
    readNumber (intText k ++ rest) = some (int k, rest) := by
  have hstart : StartsOutside isSignChar (wholeNumeral k).whole :=
    (wholeNumeral_isWellFormed k).whole.startsOutside fun _ => isSignChar_of_isDigit
  have hscan := scanSign_append_of (wholeNumeral_isWellFormed k).sign hstart
  have hvalue : Nat.ofDigitChars 10 (wholeNumeral k).whole 0 = k.natAbs :=
    Binary64.digitsValue_digits k.natAbs
  have hlen : ¬Scalar.maxDigits < (wholeNumeral k).whole.length := Nat.not_lt.2 hk
  have hint : Scalar.readInt ((wholeNumeral k).sign ++ (wholeNumeral k).whole) = .ok k := by
    unfold Scalar.readInt
    simp only [hscan, if_neg hlen, hvalue, Except.ok.injEq]
    unfold wholeNumeral
    split
    · rw [if_pos rfl]
      omega
    · rw [if_neg (by simp)]
      omega
  rw [← wholeNumeral_text, readNumber_append (wholeNumeral_isWellFormed k) (wholeNumeral_isPlain k)
    (wholeNumeral_sign_ne k) hr, numberOf, hint]
  rfl

theorem isRun_readWhole {t whole : Text} (h : readWhole t = some (whole, rest)) :
    IsRun Char.isDigit whole := by
  rw [readWhole.eq_def] at h
  split at h
  · simp only [Option.some.injEq, Prod.mk.injEq] at h
    rw [← h.1]
    simp
  · simp only [Option.ite_none_left_eq_some, Option.some.injEq, Prod.mk.injEq] at h
    exact h.2.1 ▸ isRun_scanDigits t

theorem isShort_of_readInt {sign whole : Text} {k : ℤ} (hs : IsSign sign)
    (hw : IsRun Char.isDigit whole) (h : Scalar.readInt (sign ++ whole) = .ok k) : IsShort k := by
  have hscan := scanSign_append_of hs (hw.startsOutside fun _ => isSignChar_of_isDigit)
  unfold Scalar.readInt at h
  simp only [hscan] at h
  split at h
  · simp at h
  · rename_i hlen
    simp only [Except.ok.injEq] at h
    have hk : k.natAbs = Binary64.digitsValue whole := by
      rw [← h]
      unfold Binary64.digitsValue
      split <;> simp
    refine (Nat.length_toDigits_le_iff (by decide) (by decide)).2 ?_
    rw [hk]
    exact (Binary64.digitsValue_lt hw).trans_le
      (Nat.pow_le_pow_right (by decide) (Nat.not_lt.1 hlen))

/-- **A number that is read** is a binary64 number or a short integer. -/
theorem exists_of_readNumber {t : Text} {j : Json} (h : readNumber t = some (j, rest)) :
    (∃ x, j = float x) ∨ ∃ k, j = int k ∧ IsShort k := by
  rw [readNumber.eq_def] at h
  split at h
  rename_i sign unsigned heq
  have hsign : IsSign sign := by
    split at heq <;> simp [IsSign, ← (Prod.mk.inj heq).1]
  split at h
  · simp at h
  · rename_i whole _ hwhole
    simp only at h
    split at h
    · exact .inl ⟨_, (Prod.mk.inj (Option.some.inj h)).1.symm⟩
    · cases hread : Scalar.readInt (sign ++ whole) with
      | error e => simp [hread, Except.toOption] at h
      | ok n =>
        simp only [hread, Except.toOption, Option.map_some, Option.some.injEq, Prod.mk.injEq] at h
        exact .inr ⟨n, h.1.symm, isShort_of_readInt hsign (isRun_readWhole hwhole) hread⟩

end Numbers

end EquationSheet.Json
