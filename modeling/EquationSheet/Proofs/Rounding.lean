import EquationSheet.Binary64.Shortest
import Mathlib.Algebra.Order.Field.Power
import Mathlib.Tactic

/-!
# Rounding sees only values

Rounding a quotient depends on its value alone, so decimals of one value are read as one number.

* `ofQuotient_congr`: equal quotients are rounded to one number.
* `roundMagnitude_mono`: a smaller quotient is not rounded to a larger number.
* `toBinary64_eq_ofQuotient`: the shortcuts for very large and very small decimals agree with
  rounding.
* `toBinary64_congr`: decimals of one value are read as one number.
* `shortest_reads_back`: the shortest decimal of a number is read back as that number.
-/

namespace EquationSheet

/-! ### Quotients -/

theorem tenPow_pos (e : ℕ) : 0 < Nat.pow 10 e := Nat.pow_pos (by decide)

theorem tenPow_le {a b : ℕ} (h : a ≤ b) : Nat.pow 10 a ≤ Nat.pow 10 b :=
  Nat.pow_le_pow_right (by decide) h

theorem twoPow_succ (e : ℕ) : twoPow (e + 1) = twoPow e * 2 := Nat.pow_succ 2 e

theorem tenPow_zero : Nat.pow 10 0 = 1 := rfl

theorem tenPow_eq (e : ℕ) : Nat.pow 10 e = Nat.pow 5 e * twoPow e := Nat.mul_pow 5 2 e

theorem twoPow_le_tenPow (k : ℕ) {e : ℕ} (he : 62 * k ≤ e) : twoPow (205 * k) ≤ Nat.pow 10 e := by
  have h : twoPow 205 ≤ Nat.pow 10 62 := by decide
  calc twoPow (205 * k) = Nat.pow (twoPow 205) k := Nat.pow_mul 2 205 k
    _ ≤ Nat.pow (Nat.pow 10 62) k := Nat.pow_le_pow_left h k
    _ = Nat.pow 10 (62 * k) := (Nat.pow_mul 10 62 k).symm
    _ ≤ Nat.pow 10 e := tenPow_le he

theorem roundHalfEven_scale (num den : ℕ) {k : ℕ} (hk : 0 < k) :
    roundHalfEven (num * k) (den * k) = roundHalfEven num den := by
  have hlt : 2 * (num % den * k) < den * k ↔ 2 * (num % den) < den := by
    rw [← Nat.mul_assoc]; exact Nat.mul_lt_mul_right hk
  have hgt : den * k < 2 * (num % den * k) ↔ den < 2 * (num % den) := by
    rw [← Nat.mul_assoc]; exact Nat.mul_lt_mul_right hk
  simp only [roundHalfEven, Nat.mul_div_mul_right _ _ hk, Nat.mul_mod_mul_right, hlt, hgt]

theorem roundHalfEven_of_dvd {num den : ℕ} (hden : 0 < den) (h : den ∣ num) :
    roundHalfEven num den = num / den := by
  unfold roundHalfEven
  rw [Nat.mod_eq_zero_of_dvd h, if_pos (by omega)]

/-- Of two quotients by one number, the smaller is not rounded above the larger. -/
theorem roundHalfEven_mono {a b : ℕ} (d : ℕ) (h : a ≤ b) :
    roundHalfEven a d ≤ roundHalfEven b d := by
  have hq : a / d ≤ b / d := Nat.div_le_div_right h
  have ha : d * (a / d) + a % d = a := Nat.div_add_mod a d
  have hb : d * (b / d) + b % d = b := Nat.div_add_mod b d
  rcases Nat.eq_or_lt_of_le hq with heq | hlt
  · have hr : a % d ≤ b % d := by
      rw [heq] at ha
      omega
    simp only [roundHalfEven, heq]
    split_ifs <;> omega
  · have hup : roundHalfEven a d ≤ a / d + 1 := roundHalfEven_le a d
    have hdown : b / d ≤ roundHalfEven b d := le_roundHalfEven b d
    omega

namespace Binary64

theorem spacing_scale (num den : ℕ) {k : ℕ} (hk : 0 < k) :
    spacing (num * k) (den * k) = spacing num den := by
  unfold spacing
  rw [Nat.mul_div_mul_right _ _ hk]

theorem roundMagnitude_scale (num den : ℕ) {k : ℕ} (hk : 0 < k) :
    roundMagnitude (num * k) (den * k) = roundMagnitude num den := by
  unfold roundMagnitude
  rw [spacing_scale num den hk, Nat.mul_right_comm, roundHalfEven_scale num _ hk]

/-- Quotients with one rounded magnitude are rounded to one number. -/
theorem ofQuotient_of_roundMagnitude {s : Bool} {num den num' den' : ℕ}
    (h : roundMagnitude num den = roundMagnitude num' den') :
    ofQuotient s num den = ofQuotient s num' den' := by
  unfold ofQuotient
  simp only [h]

/-- **Equal quotients are rounded to one number.** -/
theorem ofQuotient_congr {s : Bool} {num den num' den' : ℕ} (hden : 0 < den) (hden' : 0 < den')
    (h : num * den' = num' * den) : ofQuotient s num den = ofQuotient s num' den' := by
  apply ofQuotient_of_roundMagnitude
  rw [← roundMagnitude_scale num den hden', h, Nat.mul_comm den, roundMagnitude_scale num' den' hden]

theorem ofQuotient_of_eq {s : Bool} {num den u : ℕ} (hu : IsMagnitude u)
    (h : roundMagnitude num den = u) : ofQuotient s num den = .finite s u hu := by
  subst h
  unfold ofQuotient
  rw [dif_pos hu.1]

/-- A magnitude of the format is not rounded. -/
theorem ofQuotient_units (s : Bool) {u : ℕ} (hu : IsMagnitude u) :
    ofQuotient s u 1 = .finite s u hu := by
  apply ofQuotient_of_eq
  have hsp : spacing u 1 = twoPow (u.log2 - 52) := by unfold spacing; rw [Nat.div_one]
  unfold roundMagnitude
  rw [Nat.one_mul, hsp, roundHalfEven_of_dvd (twoPow_pos _) hu.2, Nat.div_mul_cancel hu.2]

theorem ofQuotient_sign {s : Bool} {num den u : ℕ} {hu : IsMagnitude u}
    (h : ofQuotient false num den = .finite false u hu) :
    ofQuotient s num den = .finite s u hu := by
  unfold ofQuotient at h
  split at h
  · simp only [finite.injEq, true_and] at h
    exact ofQuotient_of_eq hu h
  · simp at h

/-- The rounded magnitude keeps the leading bit. -/
theorem twoPow_log2_le_roundMagnitude {num den : ℕ} (hq : num / den ≠ 0) :
    twoPow (num / den).log2 ≤ roundMagnitude num den := by
  have hdvd : spacing num den ∣ twoPow (num / den).log2 := twoPow_dvd (Nat.sub_le _ _)
  have hle : twoPow (num / den).log2 ≤ num / den := Nat.log2_self_le hq
  calc twoPow (num / den).log2
      = twoPow (num / den).log2 / spacing num den * spacing num den := (Nat.div_mul_cancel hdvd).symm
    _ ≤ num / den / spacing num den * spacing num den :=
        Nat.mul_le_mul_right _ (Nat.div_le_div_right hle)
    _ = num / (den * spacing num den) * spacing num den := by rw [Nat.div_div_eq_div_mul]
    _ ≤ roundMagnitude num den := Nat.mul_le_mul_right _ (le_roundHalfEven _ _)

/-- What reaches the overflow limit is rounded to infinity. -/
theorem ofQuotient_of_overflow (s : Bool) {num den : ℕ} (hden : 0 < den)
    (h : overflowLimit * den ≤ num) : ofQuotient s num den = .infinite s := by
  have hq : overflowLimit ≤ num / den := (Nat.le_div_iff_mul_le hden).2 h
  have hpos : num / den ≠ 0 := Nat.ne_of_gt (Nat.lt_of_lt_of_le (twoPow_pos _) hq)
  have hlog : 2098 ≤ (num / den).log2 :=
    Nat.le_of_not_lt fun hlt => absurd ((log2_lt_iff hpos).1 hlt) (Nat.not_lt.2 hq)
  have hle : overflowLimit ≤ roundMagnitude num den :=
    Nat.le_trans (twoPow_le hlog) (twoPow_log2_le_roundMagnitude hpos)
  unfold ofQuotient
  rw [dif_neg (by omega)]

/-- What lies below half the smallest positive number is rounded to zero. -/
theorem ofQuotient_of_underflow (s : Bool) {num den : ℕ} (h : 2 * num < den) :
    ofQuotient s num den = zero s := by
  have hq : num / den = 0 := Nat.div_eq_of_lt (by omega)
  have hsp : spacing num den = 1 := by unfold spacing; rw [hq]; rfl
  apply ofQuotient_of_eq
  unfold roundMagnitude roundHalfEven
  simp only [hsp, Nat.mul_one, hq, Nat.mod_eq_of_lt (show num < den by omega), if_pos h]

/-! ### Order -/

theorem log2_le_log2 {a b : ℕ} (h : a ≤ b) : a.log2 ≤ b.log2 := by
  rcases Nat.eq_zero_or_pos a with rfl | ha
  · simp
  · have hb : b ≠ 0 := by omega
    exact (Nat.le_log2 hb).2 (Nat.le_trans (Nat.log2_self_le (by omega)) h)

/-- A quotient is not rounded above a number with 53 significant bits that it does not exceed. -/
theorem roundMagnitude_le {num den u : ℕ} (hden : 0 < den) (hu : twoPow (u.log2 - 52) ∣ u)
    (h : num ≤ u * den) : roundMagnitude num den ≤ u := by
  have hq : num / den ≤ u := Nat.div_le_of_le_mul (by rwa [Nat.mul_comm])
  have hlog : (num / den).log2 ≤ u.log2 := log2_le_log2 hq
  have hdvd : spacing num den ∣ u := Nat.dvd_trans (twoPow_dvd (by omega)) hu
  obtain ⟨k, rfl⟩ := hdvd
  set sp := spacing num den with hsp
  have hpos : 0 < den * sp := Nat.mul_pos hden (twoPow_pos _)
  have hnum : num ≤ k * (den * sp) := by
    calc num ≤ sp * k * den := h
      _ = k * (den * sp) := by ring
  have hround : roundHalfEven num (den * sp) ≤ k := by
    calc roundHalfEven num (den * sp) ≤ roundHalfEven (k * (den * sp)) (den * sp) :=
          roundHalfEven_mono _ hnum
      _ = k * (den * sp) / (den * sp) := roundHalfEven_of_dvd hpos (Nat.dvd_mul_left _ _)
      _ = k := Nat.mul_div_cancel _ hpos
  calc roundMagnitude num den = roundHalfEven num (den * sp) * sp := rfl
    _ ≤ k * sp := Nat.mul_le_mul_right _ hround
    _ = sp * k := Nat.mul_comm _ _

/-- **Rounding is monotone.** -/
theorem roundMagnitude_mono {num den num' den' : ℕ} (hden : 0 < den) (hden' : 0 < den')
    (h : num * den' ≤ num' * den) : roundMagnitude num den ≤ roundMagnitude num' den' := by
  have hq : num / den ≤ num' / den' := by
    rw [Nat.le_div_iff_mul_le hden']
    refine Nat.le_of_mul_le_mul_right ?_ hden
    calc num / den * den' * den = num / den * den * den' := by ring
      _ ≤ num * den' := Nat.mul_le_mul_right _ (Nat.div_mul_le_self _ _)
      _ ≤ num' * den := h
  rcases Nat.eq_or_lt_of_le (log2_le_log2 hq) with heq | hlt
  · -- the spacing is the same, and both quotients are brought to one denominator
    have hsp : spacing num' den' = spacing num den := by
      unfold spacing
      rw [heq]
    unfold roundMagnitude
    rw [hsp]
    set sp := spacing num den
    refine Nat.mul_le_mul_right _ ?_
    calc roundHalfEven num (den * sp)
        = roundHalfEven (num * den') (den * sp * den') := (roundHalfEven_scale _ _ hden').symm
      _ ≤ roundHalfEven (num' * den) (den * sp * den') := roundHalfEven_mono _ h
      _ = roundHalfEven (num' * den) (den' * sp * den) := by
          rw [show den * sp * den' = den' * sp * den by ring]
      _ = roundHalfEven num' (den' * sp) := roundHalfEven_scale _ _ hden
  · -- a power of two lies between the two
    have hne : num' / den' ≠ 0 := by
      intro hzero
      rw [hzero] at hlt
      simp at hlt
    have hbound : num ≤ twoPow ((num / den).log2 + 1) * den := by
      have hlt := lt_twoPow_log2 (num / den)
      have hdiv : num < (num / den + 1) * den := by
        rw [Nat.add_mul, Nat.one_mul, Nat.mul_comm]
        exact Nat.lt_mul_div_succ num hden |>.trans_eq (by ring)
      exact (Nat.le_of_lt hdiv).trans (Nat.mul_le_mul_right _ hlt)
    have hmagnitude : twoPow ((twoPow ((num / den).log2 + 1)).log2 - 52) ∣
        twoPow ((num / den).log2 + 1) := by
      rw [log2_twoPow]
      exact twoPow_dvd (Nat.sub_le _ _)
    calc roundMagnitude num den ≤ twoPow ((num / den).log2 + 1) :=
          roundMagnitude_le hden hmagnitude hbound
      _ ≤ twoPow (num' / den').log2 := twoPow_le hlt
      _ ≤ roundMagnitude num' den' := twoPow_log2_le_roundMagnitude hne

theorem isFinite_ofQuotient {s : Bool} {num den : ℕ} :
    (ofQuotient s num den).isFinite = true ↔ roundMagnitude num den < overflowLimit := by
  unfold ofQuotient
  split <;> simp_all [isFinite]

/-- An integer is rounded to the nearest number, which has to be finite. -/
theorem ofInt?_eq_some_iff {k : ℤ} {x : Binary64} : ofInt? k = some x ↔
    ofQuotient (decide (k < 0)) (k.natAbs * one) 1 = x ∧ x.isFinite = true := by
  -- the definition is opened as a function: at an integer the rounding itself would be unfolded
  generalize hround : ofInt? = round
  delta ofInt? at hround
  subst hround
  beta_reduce
  generalize ofQuotient (decide (k < 0)) (k.natAbs * one) 1 = y
  cases y with
  | finite s u hu =>
    simp only [Option.some.injEq, iff_self_and]
    rintro rfl
    rfl
  | infinite s =>
    simp only [reduceCtorEq, false_iff, not_and]
    rintro rfl
    simp [isFinite]
  | nan =>
    simp only [reduceCtorEq, false_iff, not_and]
    rintro rfl
    simp [isFinite]

end Binary64

/-! ### Decimals -/

namespace Decimal

open Binary64

/-- The rational number that a decimal stands for. -/
def value (d : Decimal) : ℚ := d.coefficient * 10 ^ d.exponent

/-- A decimal in units, as a fraction of two naturals. -/
theorem value_eq_div (d : Decimal) :
    d.value = (d.coefficient * Nat.pow 10 d.exponent.toNat : ℕ) / (Nat.pow 10 (-d.exponent).toNat : ℕ) := by
  obtain ⟨c, e⟩ := d
  simp only [value, Nat.pow_eq]
  rcases le_total 0 e with h | h
  · lift e to ℕ using h
    simp
  · obtain ⟨n, rfl⟩ : ∃ n : ℕ, e = -n := ⟨(-e).toNat, by omega⟩
    simp [zpow_neg, div_eq_mul_inv]

theorem overflowLimit_le {e : ℕ} (h : 310 ≤ e) : overflowLimit ≤ Nat.pow 10 e * one := by
  unfold overflowLimit one
  -- 62 digits give 205 bits, and five times as many reach the limit
  calc twoPow 2098 ≤ twoPow (205 * 5 + 1074) := twoPow_le (by omega)
    _ = twoPow (205 * 5) * twoPow 1074 := twoPow_add _ _
    _ ≤ Nat.pow 10 e * twoPow 1074 :=
        Nat.mul_le_mul_right _ (twoPow_le_tenPow 5 (by omega))

/-- A decimal that counts as huge lies beyond the overflow limit. -/
theorem overflow_of_isHuge {d : Decimal} (h : d.IsHuge = true) :
    overflowLimit * Nat.pow 10 (-d.exponent).toNat ≤
      d.coefficient * Nat.pow 10 d.exponent.toNat * one := by
  simp only [IsHuge, Bool.and_eq_true, bne_iff_ne, decide_eq_true_eq] at h
  have hexp : (-d.exponent).toNat = 0 := by omega
  have hlimit : overflowLimit ≤ Nat.pow 10 d.exponent.toNat * one := overflowLimit_le (by omega)
  have hone : 0 < d.coefficient := Nat.pos_of_ne_zero h.1
  rw [hexp, tenPow_zero, Nat.mul_one, Nat.mul_assoc]
  exact Nat.le_trans hlimit (Nat.le_mul_of_pos_left _ hone)

/-- A decimal that counts as tiny lies below half the smallest positive number. -/
theorem underflow_of_isTiny {d : Decimal} (h : d.IsTiny = true) :
    2 * (d.coefficient * Nat.pow 10 d.exponent.toNat * one) < Nat.pow 10 (-d.exponent).toNat := by
  simp only [IsTiny, Bool.or_eq_true, beq_iff_eq, decide_eq_true_eq] at h
  rcases h with h | h
  · rw [h]; simp
  have hexp : d.exponent.toNat = 0 := by omega
  have hbound : d.coefficient.log2 + 1 + 1075 < 3 * (-d.exponent).toNat := by omega
  have hone : one * 2 = twoPow 1075 := by unfold one; rw [← twoPow_succ]
  rw [hexp]
  -- three bits for each digit are less than the digit needs
  calc 2 * (d.coefficient * Nat.pow 10 0 * one) = d.coefficient * (one * 2) := by
        rw [tenPow_zero]; ring
    _ = d.coefficient * twoPow 1075 := by rw [hone]
    _ ≤ twoPow (d.coefficient.log2 + 1) * twoPow 1075 :=
        Nat.mul_le_mul_right _ (lt_twoPow_log2 _).le
    _ = twoPow (d.coefficient.log2 + 1 + 1075) := (twoPow_add _ _).symm
    _ < twoPow (3 * (-d.exponent).toNat) := Nat.pow_lt_pow_right (by decide) hbound
    _ = Nat.pow 8 (-d.exponent).toNat := Nat.pow_mul 2 3 _
    _ ≤ Nat.pow 10 (-d.exponent).toNat := Nat.pow_le_pow_left (by decide) _

/-- **Reading a decimal is rounding it**, also where its size alone decides. -/
theorem toBinary64_eq_ofQuotient (s : Bool) (d : Decimal) :
    d.toBinary64 s = ofQuotient s (d.coefficient * Nat.pow 10 d.exponent.toNat * one)
      (Nat.pow 10 (-d.exponent).toNat) := by
  unfold toBinary64
  split
  · rename_i h
    exact (ofQuotient_of_overflow s (tenPow_pos _) (overflow_of_isHuge h)).symm
  · split
    · rename_i h
      exact (ofQuotient_of_underflow s (underflow_of_isTiny h)).symm
    · rfl

/-- **Decimals of one value are read as one number.** -/
theorem toBinary64_congr {d d' : Decimal} (s : Bool) (h : d.value = d'.value) :
    d.toBinary64 s = d'.toBinary64 s := by
  have hd : 0 < Nat.pow 10 (-d.exponent).toNat := tenPow_pos _
  have hd' : 0 < Nat.pow 10 (-d'.exponent).toNat := tenPow_pos _
  rw [value_eq_div, value_eq_div, div_eq_div_iff (by exact_mod_cast hd.ne') (by exact_mod_cast hd'.ne')] at h
  rw [toBinary64_eq_ofQuotient, toBinary64_eq_ofQuotient]
  apply ofQuotient_congr hd hd'
  have hnat : d.coefficient * Nat.pow 10 d.exponent.toNat * Nat.pow 10 (-d'.exponent).toNat =
      d'.coefficient * Nat.pow 10 d'.exponent.toNat * Nat.pow 10 (-d.exponent).toNat := by
    exact_mod_cast h
  rw [Nat.mul_right_comm, hnat, Nat.mul_right_comm]

theorem toBinary64_sign {s : Bool} {d : Decimal} {u : ℕ} {hu : IsMagnitude u}
    (h : d.toBinary64 false = .finite false u hu) : d.toBinary64 s = .finite s u hu := by
  rw [toBinary64_eq_ofQuotient] at h ⊢
  exact ofQuotient_sign h

/-- A decimal of so many units is read as the number of so many units. -/
theorem toBinary64_of_units {s : Bool} {d : Decimal} {u n : ℕ}
    (hcoeff : d.coefficient = u * Nat.pow 5 n) (hexp : d.exponent = -n) (hone : one = twoPow n) :
    d.toBinary64 s = ofQuotient s u 1 := by
  rw [toBinary64_eq_ofQuotient]
  apply ofQuotient_congr (tenPow_pos _) Nat.one_pos
  rw [hexp, hcoeff, hone, show (-(n : ℤ)).toNat = 0 by omega, show (-(-(n : ℤ))).toNat = n by omega,
    tenPow_zero, Nat.mul_one, Nat.mul_one, tenPow_eq, Nat.mul_assoc]

/-- A decimal without an exponent is read as its coefficient. -/
theorem toBinary64_of_exponent_eq_zero (s : Bool) {d : Decimal} (h : d.exponent = 0) :
    d.toBinary64 s = ofQuotient s (d.coefficient * one) 1 := by
  rw [toBinary64_eq_ofQuotient, h, neg_zero, Int.toNat_zero, tenPow_zero, Nat.mul_one]

/-- The exact decimal of a magnitude is read back. -/
theorem exact_reads_back {u : ℕ} (hu : IsMagnitude u) :
    (exact u).toBinary64 false = .finite false u hu := by
  have hcoeff : (exact u).coefficient = u * Nat.pow 5 1074 := rfl
  rw [toBinary64_of_units hcoeff rfl rfl, ofQuotient_units]

theorem reads_of_pick {reads : Decimal → Bool} {d c : Decimal} {dropped : ℕ}
    (h : pick reads d dropped = some c) : reads c = true := by
  unfold pick at h
  grind

/-- **The shortest decimal is read back** as the number it was chosen for. -/
theorem shortest_reads_back (s : Bool) {u : ℕ} (hu : IsMagnitude u) :
    (shortest u hu).toBinary64 s = .finite s u hu := by
  apply toBinary64_sign
  unfold shortest
  simp only
  -- seventeen digits would always do, but the exact decimal stands behind them anyway
  cases hfound : (List.range' 1 17).findSome? fun digits =>
      pick (fun c => c.toBinary64 false == .finite false u hu) (exact u)
        (digitCount (exact u).coefficient - digits) with
  | none => exact exact_reads_back hu
  | some c =>
    obtain ⟨digits, -, hpick⟩ := List.exists_of_findSome?_eq_some hfound
    simpa using reads_of_pick hpick

end Decimal

end EquationSheet
