import EquationSheet.Proofs.Rounding

/-!
# The nearest number

A finite binary64 number is a rational number. Rounding a quotient finds the finite number nearest
to it, of two that are equally near the even one, and finds none exactly if the quotient reaches the
middle between the largest finite number and `2 ^ 1024`. Nearness is measured among all finite
numbers, of either sign; the sign of the result is given with the quotient, as zero has one of its
own.

* `abs_sub_roundHalfEven_le`, `even_roundHalfEven`: rounding to a natural.
* `abs_sub_roundMagnitude_le`, `hasEvenSignificand_of_tie`: rounding to a magnitude, against all others.
* `roundMagnitude_lt_iff`: where rounding leaves the format.
* `IsNearest.unique`: there is one nearest number.
* `ofQuotient_eq_iff_isNearest`: **rounding a quotient finds the nearest number.**
-/

namespace EquationSheet

variable {num den : ℕ}

/-! ### To the nearest natural -/

/-- A quotient lies above its whole part by the remainder. -/
theorem cast_div_eq (num : ℕ) (hden : 0 < den) :
    (num : ℚ) / den = (num / den : ℕ) + (num % den : ℕ) / (den : ℚ) := by
  have hne : (den : ℚ) ≠ 0 := by positivity
  have hsplit : (num : ℚ) = den * (num / den : ℕ) + (num % den : ℕ) := by
    exact_mod_cast (Nat.div_add_mod num den).symm
  conv_lhs => rw [hsplit]
  rw [add_div, mul_div_cancel_left₀ _ hne]

theorem mod_div_bounds (num : ℕ) (hden : 0 < den) :
    (0 : ℚ) ≤ (num % den : ℕ) / (den : ℚ) ∧ ((num % den : ℕ) : ℚ) / den ≤ 1 := by
  have hpos : (0 : ℚ) < den := by exact_mod_cast hden
  refine ⟨by positivity, ?_⟩
  rw [div_le_one hpos]
  exact_mod_cast (Nat.mod_lt num hden).le

/-- The whole part is kept up to a remainder of one half, and goes up from there. At one half the
even one is taken. -/
theorem roundHalfEven_cases (num den : ℕ) :
    (roundHalfEven num den = num / den ∧ 2 * (num % den) ≤ den ∧
      (2 * (num % den) = den → Even (num / den))) ∨
    (roundHalfEven num den = num / den + 1 ∧ den ≤ 2 * (num % den) ∧
      (2 * (num % den) = den → Even (num / den + 1))) := by
  unfold roundHalfEven
  simp only [Nat.even_iff]
  split_ifs with hbelow habove
  · exact .inl ⟨rfl, by omega, by omega⟩
  · exact .inr ⟨rfl, by omega, by omega⟩
  · rcases Nat.mod_two_eq_zero_or_one (num / den) with heven | hodd
    · exact .inl ⟨by omega, by omega, by omega⟩
    · exact .inr ⟨by omega, by omega, by omega⟩

/-- A rounded quotient is at most one half away from the quotient. -/
theorem abs_sub_roundHalfEven_le (num : ℕ) (hden : 0 < den) :
    |(num : ℚ) / den - roundHalfEven num den| ≤ 1 / 2 := by
  have hpos : (0 : ℚ) < den := by exact_mod_cast hden
  obtain ⟨hlow, hhigh⟩ := mod_div_bounds num hden
  rw [cast_div_eq num hden, abs_le]
  rcases roundHalfEven_cases num den with ⟨hround, hhalf, -⟩ | ⟨hround, hhalf, -⟩
  · have hle : ((num % den : ℕ) : ℚ) / den ≤ 1 / 2 := by
      rw [div_le_div_iff₀ hpos two_pos]
      exact_mod_cast by omega
    rw [hround]
    constructor <;> linarith
  · have hge : (1 : ℚ) / 2 ≤ (num % den : ℕ) / (den : ℚ) := by
      rw [div_le_div_iff₀ two_pos hpos]
      exact_mod_cast by omega
    rw [hround]
    push_cast
    constructor <;> linarith

/-- **Half way between two naturals the even one is taken.** -/
theorem even_roundHalfEven (hden : 0 < den)
    (htie : |(num : ℚ) / den - roundHalfEven num den| = 1 / 2) : Even (roundHalfEven num den) := by
  have hpos : (0 : ℚ) < den := by exact_mod_cast hden
  obtain ⟨hlow, hhigh⟩ := mod_div_bounds num hden
  -- on either side the remainder is one half
  have hhalf : ((num % den : ℕ) : ℚ) / den = 1 / 2 → 2 * (num % den) = den := by
    intro h
    rw [div_eq_div_iff hpos.ne' two_ne_zero] at h
    have hnat : num % den * 2 = 1 * den := by exact_mod_cast h
    omega
  rw [cast_div_eq num hden] at htie
  rcases roundHalfEven_cases num den with ⟨hround, -, heven⟩ | ⟨hround, -, heven⟩
  · rw [hround, add_sub_cancel_left, abs_of_nonneg hlow] at htie
    rw [hround]
    exact heven (hhalf htie)
  · rw [hround] at htie ⊢
    push_cast at htie
    rw [add_sub_add_left_eq_sub, abs_sub_comm, abs_of_nonneg (by linarith)] at htie
    exact heven (hhalf (by linarith))

namespace Binary64

/-! ### To the nearest magnitude -/

theorem spacing_pos (num den : ℕ) : 0 < spacing num den := twoPow_pos _

/-- A quotient, measured in its spacing, is rounded to a natural. -/
theorem sub_roundMagnitude_eq (num : ℕ) (hden : 0 < den) :
    (num : ℚ) / den - roundMagnitude num den =
      (num / (den * spacing num den : ℕ) - roundHalfEven num (den * spacing num den)) *
        spacing num den := by
  have hpos : (0 : ℚ) < den := by exact_mod_cast hden
  have hspacing : (0 : ℚ) < spacing num den := by exact_mod_cast spacing_pos num den
  unfold roundMagnitude
  push_cast
  field_simp

/-- A quotient is rounded by at most half of its spacing. -/
theorem abs_sub_roundMagnitude_le_half (num : ℕ) (hden : 0 < den) :
    |(num : ℚ) / den - roundMagnitude num den| ≤ spacing num den / 2 := by
  have hspacing : (0 : ℚ) < spacing num den := by exact_mod_cast spacing_pos num den
  have hnear := abs_sub_roundHalfEven_le num (Nat.mul_pos hden (spacing_pos num den))
  rw [sub_roundMagnitude_eq num hden, abs_mul, abs_of_pos hspacing]
  nlinarith

/-- The last bit of the significand is zero. -/
def HasEvenSignificand (u : ℕ) : Prop := 2 * twoPow (u.log2 - 52) ∣ u

/-- An even number of spacings has an even significand, also where it was rounded up to the next
power of two. -/
theorem hasEvenSignificand_mul {m e : ℕ} (hm : m ≤ twoPow 53) (heven : Even m) :
    HasEvenSignificand (m * twoPow e) := by
  unfold HasEvenSignificand
  rcases Nat.eq_zero_or_pos m with rfl | hpos
  · simp
  have hne : m * twoPow e ≠ 0 := Nat.ne_of_gt (Nat.mul_pos hpos (twoPow_pos e))
  rcases Nat.lt_or_eq_of_le hm with hlt | rfl
  · have hlog : (m * twoPow e).log2 < 53 + e := by
      rw [log2_lt_iff hne, twoPow_add]
      exact Nat.mul_lt_mul_of_pos_right hlt (twoPow_pos e)
    exact Nat.mul_dvd_mul heven.two_dvd (twoPow_dvd (by omega))
  · rw [← twoPow_add, log2_twoPow, Nat.mul_comm, ← twoPow_succ]
    exact twoPow_dvd (by omega)

/-- Half way between two magnitudes of one spacing the even one is taken. -/
theorem hasEvenSignificand_of_half (hden : 0 < den)
    (htie : |(num : ℚ) / den - roundMagnitude num den| = spacing num den / 2) :
    HasEvenSignificand (roundMagnitude num den) := by
  have hspacing : (0 : ℚ) < spacing num den := by exact_mod_cast spacing_pos num den
  rw [sub_roundMagnitude_eq num hden, abs_mul, abs_of_pos hspacing,
    div_eq_mul_one_div _ (2 : ℚ), mul_comm _ (1 / 2 : ℚ)] at htie
  have hhalf := mul_right_cancel₀ hspacing.ne' htie
  have heven := even_roundHalfEven (Nat.mul_pos hden (spacing_pos num den)) hhalf
  exact hasEvenSignificand_mul (significand_le num den) heven

/-- A magnitude is a multiple of the spacing of a quotient, or lies below the power of two where
that spacing begins. -/
theorem dvd_or_lt_of_isMagnitude {v : ℕ} (hv : IsMagnitude v) (num den : ℕ) :
    spacing num den ∣ v ∨ num / den ≠ 0 ∧ v < twoPow (num / den).log2 := by
  rcases Nat.lt_or_ge v.log2 (num / den).log2 with hlt | hge
  · have hpow : twoPow (v.log2 + 1) ≤ twoPow (num / den).log2 := twoPow_le hlt
    refine .inr ⟨?_, Nat.lt_of_lt_of_le (lt_twoPow_log2 v) hpow⟩
    intro hzero
    rw [hzero, Nat.log2_zero] at hlt
    omega
  · exact .inl (Nat.dvd_trans (twoPow_dvd (Nat.sub_le_sub_right hge 52)) hv.2)

/-- Every other multiple of the spacing is at least half of it away from the quotient. -/
theorem half_le_abs_sub {v : ℕ} (hden : 0 < den) (hv : spacing num den ∣ v)
    (hne : v ≠ roundMagnitude num den) :
    (spacing num den : ℚ) / 2 ≤ |(num : ℚ) / den - v| := by
  have hgrid : spacing num den ∣ roundMagnitude num den := Nat.dvd_mul_left _ _
  have hint : (spacing num den : ℤ) ∣ (roundMagnitude num den : ℤ) - v :=
    dvd_sub (Int.natCast_dvd_natCast.2 hgrid) (Int.natCast_dvd_natCast.2 hv)
  have hapart : (spacing num den : ℤ) ≤ |(roundMagnitude num den : ℤ) - v| :=
    Int.le_of_dvd (abs_pos.2 (sub_ne_zero.2 (by exact_mod_cast hne.symm))) ((dvd_abs _ _).2 hint)
  have hcast : (spacing num den : ℚ) ≤ |(roundMagnitude num den : ℚ) - v| := by exact_mod_cast hapart
  have hhalf := abs_sub_roundMagnitude_le_half num hden
  have htriangle : |(roundMagnitude num den : ℚ) - v| ≤
      |(num : ℚ) / den - roundMagnitude num den| + |(num : ℚ) / den - v| := by
    rw [abs_sub_comm ((num : ℚ) / den)]
    exact abs_sub_le _ _ _
  linarith

theorem abs_sub_roundMagnitude_le_of_dvd {v : ℕ} (hden : 0 < den) (hv : spacing num den ∣ v) :
    |(num : ℚ) / den - roundMagnitude num den| ≤ |(num : ℚ) / den - v| := by
  rcases eq_or_ne v (roundMagnitude num den) with rfl | hne
  · exact le_rfl
  · exact (abs_sub_roundMagnitude_le_half num hden).trans (half_le_abs_sub hden hv hne)

/-- A magnitude below the power of two is farther away than the rounded one. -/
theorem abs_sub_roundMagnitude_lt {v : ℕ} (hden : 0 < den) (hne : num / den ≠ 0)
    (hlt : v < twoPow (num / den).log2) :
    |(num : ℚ) / den - roundMagnitude num den| < |(num : ℚ) / den - v| := by
  have hpow : (twoPow (num / den).log2 : ℚ) ≤ num / den := by
    have hfloor : twoPow (num / den).log2 ≤ num / den := Nat.log2_self_le hne
    exact le_trans (by exact_mod_cast hfloor) Nat.cast_div_le
  have hv : (v : ℚ) < twoPow (num / den).log2 := by exact_mod_cast hlt
  -- the power of two lies between the two, and it is a multiple of the spacing
  calc |(num : ℚ) / den - roundMagnitude num den|
      ≤ |(num : ℚ) / den - twoPow (num / den).log2| :=
        abs_sub_roundMagnitude_le_of_dvd hden (twoPow_dvd (Nat.sub_le _ _))
    _ = num / den - twoPow (num / den).log2 := abs_of_nonneg (by linarith)
    _ < num / den - v := by linarith
    _ ≤ |(num : ℚ) / den - v| := le_abs_self _

/-- **No magnitude is nearer to a quotient** than the one it is rounded to. -/
theorem abs_sub_roundMagnitude_le {v : ℕ} (hden : 0 < den) (hv : IsMagnitude v) :
    |(num : ℚ) / den - roundMagnitude num den| ≤ |(num : ℚ) / den - v| := by
  rcases dvd_or_lt_of_isMagnitude hv num den with hgrid | ⟨hne, hlt⟩
  · exact abs_sub_roundMagnitude_le_of_dvd hden hgrid
  · exact (abs_sub_roundMagnitude_lt hden hne hlt).le

/-- **If another magnitude is as near**, the one that a quotient is rounded to is even. -/
theorem hasEvenSignificand_of_tie {v : ℕ} (hden : 0 < den) (hv : IsMagnitude v)
    (hne : v ≠ roundMagnitude num den)
    (htie : |(num : ℚ) / den - roundMagnitude num den| = |(num : ℚ) / den - v|) :
    HasEvenSignificand (roundMagnitude num den) := by
  rcases dvd_or_lt_of_isMagnitude hv num den with hgrid | ⟨hquot, hlt⟩
  · have hlow := half_le_abs_sub hden hgrid hne
    have hhigh := abs_sub_roundMagnitude_le_half num hden
    exact hasEvenSignificand_of_half hden (by linarith)
  · exact absurd htie (abs_sub_roundMagnitude_lt hden hquot hlt).ne

/-! ### Where rounding leaves the format -/

/-- The middle between the largest finite magnitude and the overflow limit. -/
def overflowMiddle : ℕ := overflowLimit - twoPow 2044

theorem overflowMiddle_add : overflowMiddle + twoPow 2044 = overflowLimit := by decide +kernel

/-- **A quotient is rounded to a magnitude exactly below the middle** between the largest one and
the overflow limit; from the middle on it is rounded up. -/
theorem roundMagnitude_lt_iff (num : ℕ) (hden : 0 < den) :
    roundMagnitude num den < overflowLimit ↔ (num : ℚ) / den < overflowMiddle := by
  have hpos : (0 : ℚ) < den := by exact_mod_cast hden
  constructor
  · intro hround
    by_contra hlarge
    have hcast : (overflowMiddle : ℚ) * den ≤ num := (le_div_iff₀ hpos).1 (not_lt.1 hlarge)
    have hle : overflowMiddle * den ≤ num * 1 := by
      rw [Nat.mul_one]
      exact_mod_cast hcast
    have hmiddle : overflowLimit ≤ roundMagnitude overflowMiddle 1 := by decide +kernel
    have hmono := roundMagnitude_mono Nat.one_pos hden hle
    omega
  · intro hsmall
    have hquot : num / den < overflowLimit := by
      have hcast : ((num / den : ℕ) : ℚ) < overflowMiddle := lt_of_le_of_lt Nat.cast_div_le hsmall
      have hnat : num / den < overflowMiddle := by exact_mod_cast hcast
      have hadd := overflowMiddle_add
      omega
    -- below the limit the spacing is at most that of the largest magnitude
    have hlog : (num / den).log2 ≤ 2097 := by
      rcases eq_or_ne (num / den) 0 with hzero | hne
      · rw [hzero, Nat.log2_zero]
        omega
      · have hlt : (num / den).log2 < 2098 := (log2_lt_iff hne).2 hquot
        omega
    have hspacing : spacing num den ≤ twoPow 2045 := twoPow_le (by omega)
    have hcast : (spacing num den : ℚ) ≤ 2 * twoPow 2044 := by
      have hdouble : twoPow 2045 = 2 * twoPow 2044 := by rw [twoPow_succ, Nat.mul_comm]
      rw [hdouble] at hspacing
      exact_mod_cast hspacing
    have hnear := abs_le.1 (abs_sub_roundMagnitude_le_half num hden)
    have hlimit : (overflowMiddle : ℚ) + twoPow 2044 = overflowLimit := by
      exact_mod_cast overflowMiddle_add
    have hround : (roundMagnitude num den : ℚ) < overflowLimit := by linarith [hnear.1]
    exact_mod_cast hround

/-! ### The nearest number -/

/-- The rational number that one unit is, the smallest positive number. -/
def unit : ℚ := (2 ^ 1074)⁻¹

/-- A rational number with a sign in front. -/
def signed (negative : Bool) (q : ℚ) : ℚ := if negative then -q else q

/-- The rational number that a finite number is. -/
def toRat : Binary64 → ℚ
  | .finite s u _ => signed s (u * unit)
  | _ => 0

def isNegative : Binary64 → Bool
  | .finite s _ _ => s
  | .infinite s => s
  | .nan => false

/-- The last bit of the significand is zero. -/
def IsEven : Binary64 → Prop
  | .finite _ u _ => HasEvenSignificand u
  | _ => False

/-- The middle between the largest finite number and `2 ^ 1024`. -/
def overflowBound : ℚ := 2 ^ 1024 - 2 ^ 970

/-- **Round to nearest, ties to even.** The rational number lies in the range of the format, no
finite number is nearer to it than `x`, and `x` is even if another one is as near. The sign is given
beside the rational number, as zero has two. -/
structure IsNearest (x : Binary64) (negative : Bool) (q : ℚ) : Prop where
  isFinite : x.isFinite = true
  sign : x.isNegative = negative
  inRange : |q| < overflowBound
  nearest : ∀ y : Binary64, y.isFinite = true → |q - x.toRat| ≤ |q - y.toRat|
  even : ∀ y : Binary64, y.isFinite = true → y.toRat ≠ x.toRat →
    |q - x.toRat| = |q - y.toRat| → x.IsEven

variable {s t : Bool} {x x' : Binary64}

theorem unit_pos : 0 < unit := inv_pos.2 (pow_pos two_pos 1074)

theorem cast_twoPow (e : ℕ) : (twoPow e : ℚ) = 2 ^ e := by
  unfold twoPow
  rw [Nat.pow_eq, Nat.cast_pow, Nat.cast_ofNat]

theorem one_mul_unit : (one : ℚ) * unit = 1 := by
  unfold one unit
  rw [cast_twoPow]
  exact mul_inv_cancel₀ (pow_pos two_pos 1074).ne'

theorem abs_signed (s : Bool) (q : ℚ) : |signed s q| = |q| := by
  cases s <;> simp [signed]

theorem signed_signed (s : Bool) (q : ℚ) : signed s (signed s q) = q := by
  cases s <;> simp [signed]

theorem abs_signed_sub_signed (s : Bool) (a b : ℚ) : |signed s a - signed s b| = |a - b| := by
  cases s with
  | false => simp [signed]
  | true => simp only [signed, if_true, neg_sub_neg, abs_sub_comm]

/-- Numbers of opposite signs are as far apart as their sizes add up to. -/
theorem abs_signed_sub_of_ne {a b : ℚ} (ha : 0 ≤ a) (hb : 0 ≤ b) (hne : s ≠ t) :
    |signed s a - signed t b| = a + b := by
  cases s <;> cases t
  · exact absurd rfl hne
  · simp only [signed, Bool.false_eq_true, if_false, if_true, sub_neg_eq_add]
    exact abs_of_nonneg (by linarith)
  · simp only [signed, Bool.false_eq_true, if_false, if_true]
    rw [abs_of_nonpos (by linarith)]
    ring
  · exact absurd rfl hne

/-- Numbers are at least as far apart as their sizes. -/
theorem abs_sub_le_abs_signed {a b : ℚ} (ha : 0 ≤ a) (hb : 0 ≤ b) (s t : Bool) :
    |a - b| ≤ |signed s a - signed t b| := by
  rcases eq_or_ne s t with rfl | hne
  · rw [abs_signed_sub_signed]
  · rw [abs_signed_sub_of_ne ha hb hne, abs_le]
    constructor <;> linarith

theorem abs_mul_unit_sub (a b : ℚ) : |a * unit - b * unit| = |a - b| * unit := by
  rw [← sub_mul, abs_mul, abs_of_pos unit_pos]

theorem overflowMiddle_mul_unit : (overflowMiddle : ℚ) * unit = overflowBound := by
  have hmiddle : (overflowMiddle : ℚ) + twoPow 2044 = overflowLimit := by
    rw [← Nat.cast_add, overflowMiddle_add]
  have hlimit : overflowLimit = twoPow 1024 * one := by
    unfold overflowLimit one
    rw [← twoPow_add]
  have hgap : twoPow 2044 = twoPow 970 * one := by
    unfold one
    rw [← twoPow_add]
  rw [hlimit, hgap, Nat.cast_mul, Nat.cast_mul] at hmiddle
  have hpow : ∀ a b : ℕ, (twoPow a : ℚ) - twoPow b = 2 ^ a - 2 ^ b := fun a b => by
    rw [cast_twoPow, cast_twoPow]
  unfold overflowBound
  calc (overflowMiddle : ℚ) * unit = (twoPow 1024 * one - twoPow 970 * one) * unit := by
        rw [← hmiddle, add_sub_cancel_right]
    _ = (twoPow 1024 - twoPow 970) * (one * unit) := by rw [← sub_mul, mul_assoc]
    _ = twoPow 1024 - twoPow 970 := by rw [one_mul_unit, mul_one]
    _ = 2 ^ 1024 - 2 ^ 970 := hpow 1024 970

/-- A quotient of units is in range if it lies below the middle. -/
theorem lt_overflowMiddle_iff {q : ℚ} : q < overflowMiddle ↔ q * unit < overflowBound := by
  rw [← overflowMiddle_mul_unit, mul_lt_mul_iff_left₀ unit_pos]

/-- **The rounded magnitude is the nearest number**, with either sign. -/
theorem isNearest_roundMagnitude (s : Bool) (hden : 0 < den)
    (hu : IsMagnitude (roundMagnitude num den)) :
    IsNearest (.finite s (roundMagnitude num den) hu) s (signed s (num / den * unit)) := by
  have hpos := unit_pos
  have hquot : (0 : ℚ) ≤ (num : ℚ) / den := by positivity
  have hscaled : (0 : ℚ) ≤ (num : ℚ) / den * unit := by positivity
  have hdist : |signed s (num / den * unit) - toRat (.finite s (roundMagnitude num den) hu)| =
      |(num : ℚ) / den - roundMagnitude num den| * unit := by
    simp only [toRat, abs_signed_sub_signed, abs_mul_unit_sub]
  -- the sign of another number only makes it farther away
  have hother : ∀ t v (hv : IsMagnitude v), |(num : ℚ) / den - v| * unit ≤
      |signed s (num / den * unit) - toRat (.finite t v hv)| := by
    intro t v hv
    rw [← abs_mul_unit_sub]
    exact abs_sub_le_abs_signed hscaled (by positivity) s t
  refine ⟨rfl, rfl, ?_, ?_, ?_⟩
  · rw [abs_signed, abs_of_nonneg hscaled, ← lt_overflowMiddle_iff]
    exact (roundMagnitude_lt_iff num hden).1 hu.1
  · intro y hy
    cases y with
    | finite t v hv =>
      have hle : |(num : ℚ) / den - roundMagnitude num den| * unit ≤ |(num : ℚ) / den - v| * unit :=
        mul_le_mul_of_nonneg_right (abs_sub_roundMagnitude_le hden hv) hpos.le
      exact hdist.trans_le (hle.trans (hother t v hv))
    | infinite t => simp [isFinite] at hy
    | nan => simp [isFinite] at hy
  · intro y hy hne htie
    cases y with
    | finite t v hv =>
      have hle : |(num : ℚ) / den - roundMagnitude num den| ≤ |(num : ℚ) / den - v| :=
        abs_sub_roundMagnitude_le hden hv
      have hge : |(num : ℚ) / den - v| ≤ |(num : ℚ) / den - roundMagnitude num den| := by
        have hscaled := hother t v hv
        rw [← htie, hdist] at hscaled
        exact le_of_mul_le_mul_right hscaled hpos
      refine hasEvenSignificand_of_tie hden hv ?_ (le_antisymm hle hge)
      -- with the same size the number would have the opposite sign, and be as near only to zero
      rintro rfl
      have hopposite : s ≠ t := by
        rintro rfl
        exact hne rfl
      have hsum : |signed s (num / den * unit) - toRat (.finite t (roundMagnitude num den) hv)| =
          num / den * unit + roundMagnitude num den * unit :=
        abs_signed_sub_of_ne hscaled (by positivity) hopposite
      rw [← htie, hdist, ← add_mul] at hsum
      have hsize := mul_right_cancel₀ hpos.ne' hsum
      have hzero : |(num : ℚ) / den - roundMagnitude num den| ≤ |(num : ℚ) / den - (0 : ℕ)| :=
        abs_sub_roundMagnitude_le hden isMagnitude_zero
      rw [Nat.cast_zero, sub_zero, abs_of_nonneg hquot] at hzero
      have hnone : (roundMagnitude num den : ℚ) = 0 := by
        have hnonneg : (0 : ℚ) ≤ roundMagnitude num den := by positivity
        linarith
      apply hne
      simp only [toRat, hnone, zero_mul]
      cases s <;> cases t <;> simp [signed]
    | infinite t => simp [isFinite] at hy
    | nan => simp [isFinite] at hy

/-! ### There is one nearest number -/

/-- Between two even magnitudes lies another one, next to the smaller. -/
theorem exists_between {u v : ℕ} (hu : HasEvenSignificand u) (hv : HasEvenSignificand v)
    (hlimit : v < overflowLimit) (hlt : u < v) : ∃ w, IsMagnitude w ∧ u < w ∧ w < v := by
  set sp := twoPow (u.log2 - 52) with hsp
  have hpos : 0 < sp := twoPow_pos _
  have hgrid : sp ∣ u := Nat.dvd_trans (Nat.dvd_mul_left _ _) hu
  have hdvd : 2 * sp ∣ v :=
    Nat.dvd_trans (Nat.mul_dvd_mul_left 2 (twoPow_dvd (Nat.sub_le_sub_right (log2_le_log2 hlt.le) 52)))
      hv
  have hgap : 2 * sp ≤ v - u := Nat.le_of_dvd (by omega) (Nat.dvd_sub hdvd hu)
  obtain ⟨m, hm⟩ := hgrid
  have hbits : m < twoPow 53 := by
    have hlarge : u < twoPow (u.log2 + 1) := lt_twoPow_log2 u
    have hpow : twoPow (u.log2 + 1) ≤ sp * twoPow 53 := by
      rw [hsp, ← twoPow_add]
      exact twoPow_le (by omega)
    have hscaled : sp * m < sp * twoPow 53 := hm ▸ hlarge.trans_le hpow
    exact Nat.lt_of_mul_lt_mul_left hscaled
  have hnext : u + sp = (m + 1) * sp := by
    rw [Nat.add_mul, Nat.one_mul, Nat.mul_comm m, ← hm]
  refine ⟨u + sp, ⟨by omega, ?_⟩, by omega, by omega⟩
  rw [hnext]
  exact dvd_of_significand_le hbits

theorem toRat_lt {u v : ℕ} (h : u < v) : (u : ℚ) * unit < v * unit :=
  mul_lt_mul_of_pos_right (by exact_mod_cast h) unit_pos

/-- Of two sizes that are both nearest to a rational number and both even the first is not the
smaller: a number between them would be nearer. -/
theorem not_lt_of_isNearest {q : ℚ} {u v : ℕ} {hu : IsMagnitude u} {hv : IsMagnitude v}
    (h : IsNearest (.finite s u hu) s q) (h' : IsNearest (.finite s v hv) s q) : ¬u < v := by
  intro hlt
  -- the sign is taken off
  obtain ⟨r, rfl⟩ : ∃ r, q = signed s r := ⟨signed s q, (signed_signed s q).symm⟩
  have hsizes := toRat_lt hlt
  have hdiffer : toRat (.finite s u hu) ≠ toRat (.finite s v hv) := by
    intro heq
    have hsame := congrArg (signed s) heq
    simp only [toRat, signed_signed] at hsame
    linarith
  have htie : |signed s r - toRat (.finite s u hu)| = |signed s r - toRat (.finite s v hv)| :=
    le_antisymm (h.nearest _ rfl) (h'.nearest _ rfl)
  obtain ⟨w, hw, hlow, hhigh⟩ := exists_between (h.even _ rfl hdiffer.symm htie)
    (h'.even _ rfl hdiffer htie.symm) hv.1 hlt
  have hnear := h.nearest (.finite s w hw) rfl
  simp only [toRat, abs_signed_sub_signed] at hnear htie
  have hmiddle : r - u * unit = v * unit - r := by
    rcases abs_eq_abs.1 htie with heq | heq <;> linarith
  have hlow' := toRat_lt hlow
  have hhigh' := toRat_lt hhigh
  rw [abs_of_pos (show (0 : ℚ) < r - u * unit by linarith)] at hnear
  rcases le_abs.1 hnear with hle | hle <;> linarith

/-- **There is one nearest number.** -/
theorem IsNearest.unique {q : ℚ} (h : IsNearest x s q) (h' : IsNearest x' s q) : x = x' := by
  cases x with
  | finite a u hu =>
    cases x' with
    | finite b v hv =>
      obtain rfl : a = s := h.sign
      obtain rfl : b = a := h'.sign
      obtain hlt | rfl | hgt := Nat.lt_trichotomy u v
      · exact absurd hlt (not_lt_of_isNearest h h')
      · rfl
      · exact absurd hgt (not_lt_of_isNearest h' h)
    | infinite b => exact absurd h'.isFinite Bool.false_ne_true
    | nan => exact absurd h'.isFinite Bool.false_ne_true
  | infinite a => exact absurd h.isFinite Bool.false_ne_true
  | nan => exact absurd h.isFinite Bool.false_ne_true

/-! ### Rounding finds it -/

/-- A quotient in the range of the format is rounded to a finite number. -/
theorem isFinite_ofQuotient_iff (s : Bool) (num : ℕ) (hden : 0 < den) :
    (ofQuotient s num den).isFinite = true ↔ (num : ℚ) / den * unit < overflowBound := by
  rw [isFinite_ofQuotient, roundMagnitude_lt_iff num hden, lt_overflowMiddle_iff]

theorem isNearest_ofQuotient (hden : 0 < den) (hfinite : (ofQuotient s num den).isFinite = true) :
    IsNearest (ofQuotient s num den) s (signed s (num / den * unit)) := by
  have hround := isFinite_ofQuotient.1 hfinite
  have hnear := isNearest_roundMagnitude s hden (isMagnitude_roundMagnitude hround)
  unfold ofQuotient
  rwa [dif_pos hround]

/-- **Rounding a quotient finds the nearest number.** -/
theorem ofQuotient_eq_iff_isNearest (hden : 0 < den) :
    ofQuotient s num den = x ∧ x.isFinite = true ↔ x.IsNearest s (signed s (num / den * unit)) := by
  constructor
  · rintro ⟨rfl, hfinite⟩
    exact isNearest_ofQuotient hden hfinite
  · intro h
    have hscaled : (0 : ℚ) ≤ (num : ℚ) / den * unit := by
      have hpos := unit_pos
      positivity
    have hrange := h.inRange
    rw [abs_signed, abs_of_nonneg hscaled, ← isFinite_ofQuotient_iff s num hden] at hrange
    exact ⟨(isNearest_ofQuotient hden hrange).unique h, h.isFinite⟩

end Binary64

namespace Decimal

open Binary64

variable {d : Decimal} {s : Bool} {x : Binary64}

/-- The quotient that a decimal is read as, counted in units, is its value. -/
theorem quotient_eq_value (d : Decimal) :
    ((d.coefficient * Nat.pow 10 d.exponent.toNat * one : ℕ) : ℚ) /
      (Nat.pow 10 (-d.exponent).toNat : ℕ) * unit = d.value := by
  rw [value_eq_div, Nat.cast_mul _ one, mul_div_right_comm, mul_assoc, one_mul_unit, mul_one]

/-- **A decimal is read as the number nearest to its value.** -/
theorem toBinary64_eq_iff_isNearest : d.toBinary64 s = x ∧ x.isFinite = true ↔
    x.IsNearest s (signed s d.value) := by
  rw [toBinary64_eq_ofQuotient, ofQuotient_eq_iff_isNearest (tenPow_pos _), quotient_eq_value]

/-- A decimal in the range of the format is read as a finite number. -/
theorem isFinite_toBinary64_iff (s : Bool) (d : Decimal) :
    (d.toBinary64 s).isFinite = true ↔ d.value < overflowBound := by
  rw [toBinary64_eq_ofQuotient, isFinite_ofQuotient_iff s _ (tenPow_pos _), quotient_eq_value]

end Decimal

end EquationSheet
