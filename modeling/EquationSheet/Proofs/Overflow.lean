import EquationSheet.Proofs.RoundTrip
import Mathlib.Data.ENat.Basic

/-!
# Where the written magnitude overflows

Only the value in SI units of an equation has to be finite. Its text carries the magnitude in the
unit of the equation, and a quotient by a small unit, or 180 times an angle, can lie beyond the
largest number of the format. What is written then is no numeral.

* `size_mul_le`, `size_div_le`: products and quotients grow with their first operand.
* `isFinite_fromSI_iff`: **each unit has a largest value with a finite magnitude**, its ceiling.
* `isFinite_toSI_fromSI`: a finite magnitude is converted back to a finite value.
* `parse_format_iff_ceiling`: **an equation comes back from its text up to the ceiling of its unit**,
  and no equation above it does.
-/

namespace EquationSheet

namespace Binary64

variable {x x' y : Binary64}

/-! ### Sizes -/

/-- The magnitude without the sign, in units. There is none that a number that is not finite does
not exceed. -/
def size : Binary64 → ℕ∞
  | .finite _ u _ => u
  | _ => ⊤

theorem size_eq_top_iff : x.size = ⊤ ↔ x.isFinite = false := by
  cases x <;> simp [size, isFinite]

/-- What is not larger than a finite number is finite. -/
theorem isFinite_of_size_le (h : x.size ≤ y.size) (hy : y.isFinite = true) : x.isFinite = true := by
  by_contra hx
  have htop : x.size = ⊤ := size_eq_top_iff.2 (by simpa using hx)
  have : y.size = ⊤ := top_le_iff.1 (htop ▸ h)
  rw [size_eq_top_iff, hy] at this
  exact absurd this (by decide)

theorem exists_of_isFinite (h : x.isFinite = true) : ∃ s u hu, x = finite s u hu := by
  cases x with
  | finite s u hu => exact ⟨s, u, hu, rfl⟩
  | infinite s => simp [isFinite] at h
  | nan => simp [isFinite] at h

theorem size_ofQuotient_le {s s' : Bool} {num den num' den' : ℕ} (hden : 0 < den) (hden' : 0 < den')
    (h : num * den' ≤ num' * den) : (ofQuotient s num den).size ≤ (ofQuotient s' num' den').size := by
  have hround := roundMagnitude_mono hden hden' h
  unfold ofQuotient
  by_cases hfinite : roundMagnitude num' den' < overflowLimit
  · rw [dif_pos hfinite, dif_pos (Nat.lt_of_le_of_lt hround hfinite)]
    exact Nat.cast_le.2 hround
  · rw [dif_neg hfinite]
    exact le_top

/-- A quotient that does not exceed a number of the format is not rounded above it. -/
theorem size_ofQuotient_le_units {s : Bool} {num den u : ℕ} (hden : 0 < den) (hu : IsMagnitude u)
    (h : num ≤ u * den) : (ofQuotient s num den).size ≤ u := by
  have hround : roundMagnitude num den ≤ u := roundMagnitude_le hden hu.2 h
  unfold ofQuotient
  rw [dif_pos (Nat.lt_of_le_of_lt hround hu.1)]
  exact Nat.cast_le.2 hround

theorem finite_mul_finite {s t : Bool} {u v : ℕ} (hu : IsMagnitude u) (hv : IsMagnitude v) :
    finite s u hu * finite t v hv = ofQuotient (s != t) (u * v) one := by
  change mul _ _ = _
  simp only [mul]

theorem finite_div_finite {s t : Bool} {u v : ℕ} (hu : IsMagnitude u) (hv : IsMagnitude v)
    (hpos : 0 < v) : finite s u hu / finite t v hv = ofQuotient (s != t) (u * one) v := by
  change div _ _ = _
  simp only [div]
  rw [if_neg (by omega)]

/-- No quotient by zero is finite. -/
theorem isFinite_div_zero {t : Bool} (hv : IsMagnitude 0) : (x / finite t 0 hv).isFinite = false := by
  change (div _ _).isFinite = false
  cases x with
  | finite s u hu =>
    simp only [div, if_true]
    split <;> rfl
  | infinite s => rfl
  | nan => rfl

/-- **A product grows with its first factor.** -/
theorem size_mul_le (h : x.size ≤ x'.size) (y : Binary64) : (x * y).size ≤ (x' * y).size := by
  cases hx' : x'.isFinite with
  | false =>
    rw [size_eq_top_iff.2 (isFinite_mul hx')]
    exact le_top
  | true =>
    obtain ⟨s, u, hu, rfl⟩ := exists_of_isFinite (isFinite_of_size_le h hx')
    obtain ⟨s', u', hu', rfl⟩ := exists_of_isFinite hx'
    have hle : u ≤ u' := Nat.cast_le.1 h
    cases y with
    | finite t v hv =>
      rw [finite_mul_finite, finite_mul_finite]
      exact size_ofQuotient_le (twoPow_pos _) (twoPow_pos _)
        (Nat.mul_le_mul_right _ (Nat.mul_le_mul_right _ hle))
    | infinite t =>
      have hinf : (finite s' u' hu' * infinite t).isFinite = false := by
        change (mul _ _).isFinite = false
        simp only [mul]
        split <;> rfl
      rw [size_eq_top_iff.2 hinf]
      exact le_top
    | nan => exact le_rfl

/-- **A quotient grows with its dividend.** -/
theorem size_div_le (h : x.size ≤ x'.size) (y : Binary64) : (x / y).size ≤ (x' / y).size := by
  cases hx' : x'.isFinite with
  | false =>
    rw [size_eq_top_iff.2 (isFinite_div hx')]
    exact le_top
  | true =>
    obtain ⟨s, u, hu, rfl⟩ := exists_of_isFinite (isFinite_of_size_le h hx')
    obtain ⟨s', u', hu', rfl⟩ := exists_of_isFinite hx'
    have hle : u ≤ u' := Nat.cast_le.1 h
    cases y with
    | finite t v hv =>
      rcases Nat.eq_zero_or_pos v with rfl | hpos
      · rw [size_eq_top_iff.2 (isFinite_div_zero hv)]
        exact le_of_eq (size_eq_top_iff.2 (isFinite_div_zero hv)).symm
      · rw [finite_div_finite _ _ hpos, finite_div_finite _ _ hpos]
        exact size_ofQuotient_le hpos hpos (Nat.mul_le_mul_right _ (Nat.mul_le_mul_right _ hle))
    | infinite t => exact le_rfl
    | nan => exact le_rfl

/-- A factor of at most one does not make a number larger. -/
theorem size_mul_le_self (hx : x.isFinite = true) (hy : y.isFinite = true) (h : y.size ≤ one) :
    (x * y).size ≤ x.size := by
  obtain ⟨s, u, hu, rfl⟩ := exists_of_isFinite hx
  obtain ⟨t, v, hv, rfl⟩ := exists_of_isFinite hy
  have hle : v ≤ one := Nat.cast_le.1 h
  rw [finite_mul_finite]
  exact size_ofQuotient_le_units (twoPow_pos _) hu (Nat.mul_le_mul_left _ hle)

/-- Nor does a divisor of at least one. -/
theorem size_div_le_self (hx : x.isFinite = true) (hy : y.isFinite = true) (h : one ≤ y.size) :
    (x / y).size ≤ x.size := by
  obtain ⟨s, u, hu, rfl⟩ := exists_of_isFinite hx
  obtain ⟨t, v, hv, rfl⟩ := exists_of_isFinite hy
  have hle : one ≤ v := Nat.cast_le.1 h
  have hpos : 0 < v := Nat.lt_of_lt_of_le (twoPow_pos _) hle
  rw [finite_div_finite _ _ hpos]
  exact size_ofQuotient_le_units hpos hu (Nat.mul_le_mul_left _ hle)

/-- The largest finite number. -/
def largest : Binary64 := .finite false (overflowLimit - twoPow 2045) (by decide +kernel)

/-- The number next to a finite one and larger than it, infinite next to the largest. -/
def above : Binary64 → Binary64
  | .finite s u _ => ofQuotient s (u + twoPow (u.log2 - 52)) 1
  | x => x

/-- **No number lies between a number and the one above it.** -/
theorem size_above_le (h : x.size < y.size) : (above x).size ≤ y.size := by
  cases hy : y.isFinite with
  | false =>
    rw [size_eq_top_iff.2 hy]
    exact le_top
  | true =>
    obtain ⟨t, v, hv, rfl⟩ := exists_of_isFinite hy
    obtain ⟨s, u, hu, rfl⟩ := exists_of_isFinite (isFinite_of_size_le h.le hy)
    have hlt : u < v := Nat.cast_lt.1 h
    have hdvd : twoPow (u.log2 - 52) ∣ v :=
      Nat.dvd_trans (twoPow_dvd (Nat.sub_le_sub_right (log2_le_log2 hlt.le) _)) hv.2
    have hgap : twoPow (u.log2 - 52) ≤ v - u := Nat.le_of_dvd (by omega) (Nat.dvd_sub hdvd hu.2)
    exact size_ofQuotient_le_units Nat.one_pos hv (by omega)

theorem size_le_largest (h : x.isFinite = true) : x.size ≤ largest.size := by
  by_contra hlarge
  have habove := size_above_le (not_le.1 hlarge)
  have hinf : (above largest).isFinite = false := by decide +kernel
  rw [isFinite_of_size_le habove h] at hinf
  exact absurd hinf (by decide)

end Binary64

open Binary64

namespace Measure

variable {x x' : Binary64}

/-- The larger value in SI units has the larger magnitude. -/
theorem size_fromSI_le (u : Measure) (h : x.size ≤ x'.size) :
    (u.fromSI x).size ≤ (u.fromSI x').size := by
  unfold fromSI
  split
  · exact size_div_le (size_mul_le h _) _
  · exact size_div_le h _

/-- The largest value in SI units that has a finite magnitude in a unit. Degrees are multiplied by
180 before pi divides them. -/
def ceiling : Measure → Binary64
  | degree => largest / constant halfTurn 0
  | u => largest * u.factor

/-- **A value has a finite magnitude exactly up to the ceiling of the unit.** -/
theorem isFinite_fromSI_iff (u : Measure) (x : Binary64) :
    (u.fromSI x).isFinite = true ↔ x.size ≤ u.ceiling.size := by
  have hbelow : (u.fromSI u.ceiling).isFinite = true := by cases u <;> decide +kernel
  have habove : (u.fromSI (above u.ceiling)).isFinite = false := by cases u <;> decide +kernel
  constructor
  · intro hfinite
    by_contra hlarge
    have hsize := size_fromSI_le u (size_above_le (not_le.1 hlarge))
    rw [isFinite_of_size_le hsize hfinite] at habove
    exact absurd habove (by decide)
  · intro hsize
    exact isFinite_of_size_le (size_fromSI_le u hsize) hbelow

theorem isFinite_factor (u : Measure) : u.factor.isFinite = true := by cases u <;> decide +kernel

theorem size_factor_le (u : Measure) : u.factor.size ≤ one := by cases u <;> decide +kernel

/-- Metres and radians have no value above their ceiling, all other units have. -/
theorem largest_le_ceiling_iff (u : Measure) :
    largest.size ≤ u.ceiling.size ↔ u = metre ∨ u = radian := by
  cases u <;> decide +kernel

/-- **A finite magnitude has a finite value in SI units.** The magnitude has to come from such a
value: the product with pi of the largest number is infinite. -/
theorem isFinite_toSI_fromSI (u : Measure) (hfinite : (u.fromSI x).isFinite = true) :
    (u.toSI (u.fromSI x)).isFinite = true := by
  by_cases hu : u = degree
  · subst hu
    change (x * constant halfTurn 0 / pi).isFinite = true at hfinite
    change (x * constant halfTurn 0 / pi * pi / constant halfTurn 0).isFinite = true
    set m := x * constant halfTurn 0 with hm
    have hproduct : m.isFinite = true := isFinite_of_div hfinite
    have hsize : (m / pi * pi).size ≤ (largest / pi * pi).size :=
      size_mul_le (size_div_le (size_le_largest hproduct) pi) pi
    have hturns : (m / pi * pi).isFinite = true :=
      isFinite_of_size_le hsize (by decide +kernel)
    have hdivided : (m / pi * pi / constant halfTurn 0).size ≤ (m / pi * pi).size :=
      size_div_le_self hturns (by decide +kernel) (by decide +kernel)
    exact isFinite_of_size_le hdivided hturns
  · have hlinear : ∀ y, u.toSI y = y * u.factor := by
      intro y
      cases u <;> first | exact absurd rfl hu | rfl
    rw [hlinear]
    exact isFinite_of_size_le (size_mul_le_self hfinite u.isFinite_factor u.size_factor_le) hfinite

end Measure

namespace Equation

variable {e : Equation}

/-- What is written for a magnitude that is not finite is refused as a malformed number. -/
theorem parse_format_of_not_finite (hname : IsName e.name) (hinfinite : e.magnitude.isFinite = false) :
    ∃ error, parse e.format = .error (.parse error) ∧ error.fault.kind = .malformedNumeral := by
  obtain ⟨fault, hread, hkind⟩ := exists_fault_read hinfinite e.unit.symbol
  have hblank := startsOutside_toCompactText e.magnitude e.unit.symbol
  have hparse := parse_of_read_error hname hblank hread
  rw [← format_eq] at hparse
  exact ⟨_, hparse, hkind⟩

/-- **An equation comes back from its text up to the ceiling of its unit.** Exactly the equations
whose value is not above it are read from what is written for them, and then with their name and
unit. What is written for any other is refused as a malformed number. Every equation in metres or
in radians comes back. -/
theorem parse_format_iff_ceiling (e : Equation) (hname : IsName e.name) :
    ((∃ e', parse e.format = .ok e' ∧ e'.name = e.name ∧ e'.unit = e.unit) ↔
      e.value.size ≤ e.unit.ceiling.size) ∧
    (e.unit.ceiling.size < e.value.size → ∃ error, parse e.format = .error (.parse error) ∧
      error.fault.kind = .malformedNumeral) ∧
    (e.unit = .metre ∨ e.unit = .radian → e.value.size ≤ e.unit.ceiling.size) := by
  have hfinite : e.magnitude.isFinite = true ↔ e.value.size ≤ e.unit.ceiling.size :=
    Measure.isFinite_fromSI_iff e.unit e.value
  have hrefused : e.unit.ceiling.size < e.value.size →
      ∃ error, parse e.format = .error (.parse error) ∧ error.fault.kind = .malformedNumeral := by
    intro habove
    have hinfinite : e.magnitude.isFinite = false := by
      simpa using mt hfinite.1 (not_le.2 habove)
    exact parse_format_of_not_finite hname hinfinite
  refine ⟨⟨?_, ?_⟩, hrefused, ?_⟩
  · rintro ⟨e', hparse, -, -⟩
    by_contra hlarge
    obtain ⟨error, herror, -⟩ := hrefused (not_le.1 hlarge)
    rw [hparse] at herror
    exact absurd herror (by simp)
  · intro hsize
    have hvalue : (e.unit.toSI e.magnitude).isFinite = true :=
      Measure.isFinite_toSI_fromSI e.unit (hfinite.2 hsize)
    have hread := parse_format_of_finite hname (hfinite.2 hsize)
    exact ⟨_, hread.trans (ofDisplay_of_finite e.name hvalue), rfl, rfl⟩
  · intro hunit
    exact (size_le_largest e.isFinite).trans ((Measure.largest_le_ceiling_iff e.unit).2 hunit)

/-- The largest angle that comes back in degrees, and the angle next to it, which does not. -/
theorem parse_format_iff_ceiling_degree :
    (∃ e', parse (format ⟨['a'], Measure.ceiling .degree, .degree, by decide +kernel⟩) = .ok e' ∧
      e'.name = ['a'] ∧ e'.unit = .degree) ∧
    ∃ error, parse (format ⟨['a'], above (Measure.ceiling .degree), .degree, by decide +kernel⟩) =
      .error (.parse error) ∧ error.fault.kind = .malformedNumeral := by
  constructor
  · have hlaw := parse_format_iff_ceiling ⟨['a'], Measure.ceiling .degree, .degree, by decide +kernel⟩
      (by simp [IsName])
    exact hlaw.1.2 le_rfl
  · have hlaw := parse_format_iff_ceiling
      ⟨['a'], above (Measure.ceiling .degree), .degree, by decide +kernel⟩ (by simp [IsName])
    exact hlaw.2.1 (by decide +kernel)

/-- An angle of 10 ^ 306 radians has a finite number of degrees, which dividing by pi first would
give, but 180 times it is infinite. The equation is accepted, and what is written for it cannot be
read. -/
theorem ofSI_format_unreadable :
    (Measure.constant 1 306 / Measure.pi * Measure.constant 180 0).isFinite = true ∧
    ∃ e, ofSI ['a'] (Measure.constant 1 306) .degree = .ok e ∧ IsName e.name ∧
      e.format = ['"', 'a', '"', '=', 'i', 'n', 'f', 'd', 'e', 'g'] ∧
      ∃ error, parse e.format = .error (.parse error) ∧ error.fault.kind = .malformedNumeral := by
  have hvalue : (Measure.constant 1 306).isFinite = true := by decide +kernel
  have hname : IsName ['a'] := by simp [IsName]
  have hinfinite : Measure.fromSI .degree (Measure.constant 1 306) = .infinite false := by
    decide +kernel
  refine ⟨by decide +kernel, ⟨['a'], Measure.constant 1 306, .degree, hvalue⟩, dif_pos hvalue,
    hname, ?_, ?_⟩
  · simp only [format, magnitude, hinfinite]
    rfl
  · refine parse_format_of_not_finite hname ?_
    simp only [magnitude, hinfinite]
    rfl

end Equation

end EquationSheet
