import EquationSheet.Proofs.Overflow

/-!
# Finite numbers of any size

No unit is larger than its SI unit, so the value of an equation is no larger than the number that
was typed. All units but one are converted by one multiplication, which then cannot leave the
format. Degrees are multiplied by pi before they are divided by 180, and the product of a finite
number can be infinite although the quotient would not be.

* `size_toSI_le`: a value in SI units is no larger than the magnitude it was converted from.
* `isFinite_toSI_iff`: **each unit has a largest magnitude with a finite value**, its capacity.
* `isFinite_mul_radiansPerDegree`: one multiplication would convert all degrees.
* `parse_iff_capacity`: **a finite number with a known unit is read up to the capacity of the unit**,
  which is the largest number for all units but degrees.
* `degrees_refused`: a finite number of degrees that is refused for its size.
-/

namespace EquationSheet

namespace Binary64

variable {x y : Binary64}

/-- A power of two times a magnitude has as many bits, limit or no limit. -/
theorem spacing_dvd_mul_twoPow {u : ℕ} (hu : twoPow (u.log2 - 52) ∣ u) (k : ℕ) :
    twoPow ((u * twoPow k).log2 - 52) ∣ u * twoPow k := by
  rcases Nat.eq_zero_or_pos u with rfl | hpos
  · simp
  · have hne : u * twoPow k ≠ 0 := Nat.ne_of_gt (Nat.mul_pos hpos (twoPow_pos k))
    have hlog : (u * twoPow k).log2 < u.log2 + 1 + k := by
      rw [log2_lt_iff hne, twoPow_add]
      exact Nat.mul_lt_mul_of_pos_right (lt_twoPow_log2 u) (twoPow_pos k)
    have hsplit : twoPow (u.log2 - 52 + k) ∣ u * twoPow k := by
      rw [twoPow_add]
      exact Nat.mul_dvd_mul_right hu _
    exact Nat.dvd_trans (twoPow_dvd (by omega)) hsplit

/-- **A factor of at most a power of two** makes a number at most that much larger, if the product
is finite. -/
theorem size_mul_le_scaled (hx : x.isFinite = true) (hy : y.isFinite = true) {k : ℕ}
    (h : y.size ≤ (twoPow k * one : ℕ)) (hfinite : (x * y).isFinite = true) :
    (x * y).size ≤ x.size * twoPow k := by
  obtain ⟨s, u, hu, rfl⟩ := exists_of_isFinite hx
  obtain ⟨t, v, hv, rfl⟩ := exists_of_isFinite hy
  have hle : v ≤ twoPow k * one := Nat.cast_le.1 h
  rw [finite_mul_finite] at hfinite ⊢
  have hround : roundMagnitude (u * v) one ≤ u * twoPow k := by
    refine roundMagnitude_le (twoPow_pos _) (spacing_dvd_mul_twoPow hu.2 k) ?_
    rw [Nat.mul_assoc]
    exact Nat.mul_le_mul_left u hle
  have hlimit := isFinite_ofQuotient.1 hfinite
  unfold ofQuotient
  rw [dif_pos hlimit]
  have hcast : (roundMagnitude (u * v) one : ℕ∞) ≤ u * twoPow k := by exact_mod_cast hround
  exact hcast

/-- A divisor of at least that power takes it back. -/
theorem size_div_le_of_scaled {z : Binary64} (hx : x.isFinite = true) (hy : y.isFinite = true)
    (hz : z.isFinite = true) {k : ℕ} (hyx : y.size ≤ x.size * twoPow k)
    (h : (twoPow k * one : ℕ) ≤ z.size) : (y / z).size ≤ x.size := by
  obtain ⟨s, u, hu, rfl⟩ := exists_of_isFinite hx
  obtain ⟨t, m, hm, rfl⟩ := exists_of_isFinite hy
  obtain ⟨r, v, hv, rfl⟩ := exists_of_isFinite hz
  have hle : twoPow k * one ≤ v := Nat.cast_le.1 h
  have hscaled : m ≤ u * twoPow k := by
    have hcast : (m : ℕ∞) ≤ u * twoPow k := hyx
    exact_mod_cast hcast
  have hpos : 0 < v := Nat.lt_of_lt_of_le (Nat.mul_pos (twoPow_pos k) (twoPow_pos 1074)) hle
  rw [finite_div_finite _ _ hpos]
  refine size_ofQuotient_le_units hpos hu ?_
  calc m * one ≤ u * twoPow k * one := Nat.mul_le_mul_right one hscaled
    _ = u * (twoPow k * one) := Nat.mul_assoc _ _ _
    _ ≤ u * v := Nat.mul_le_mul_left u hle

end Binary64

open Binary64

namespace Measure

variable {x x' : Binary64}

theorem toSI_of_ne_degree {u : Measure} (hu : u ≠ degree) (x : Binary64) : u.toSI x = x * u.factor := by
  cases u <;> first | exact absurd rfl hu | rfl

/-- **A value in SI units is no larger than the magnitude** that it was converted from. In degrees
the product with pi is less than four times as large, and the division takes that back. -/
theorem size_toSI_le (u : Measure) (hvalue : (u.toSI x).isFinite = true) :
    (u.toSI x).size ≤ x.size := by
  have hx : x.isFinite = true := isFinite_of_toSI hvalue
  by_cases hu : u = degree
  · subst hu
    change (x * pi / constant halfTurn 0).isFinite = true at hvalue
    have hproduct : (x * pi).isFinite = true := isFinite_of_div hvalue
    have hscaled : (x * pi).size ≤ x.size * twoPow 2 :=
      size_mul_le_scaled hx (by decide +kernel) (by decide +kernel) hproduct
    exact size_div_le_of_scaled hx hproduct (by decide +kernel) hscaled (by decide +kernel)
  · rw [toSI_of_ne_degree hu]
    exact size_mul_le_self hx u.isFinite_factor u.size_factor_le

/-- The larger magnitude has the larger value in SI units. -/
theorem size_toSI_mono (u : Measure) (h : x.size ≤ x'.size) :
    (u.toSI x).size ≤ (u.toSI x').size := by
  unfold toSI
  split
  · exact size_div_le (size_mul_le h _) _
  · exact size_mul_le h _

/-- The largest magnitude that has a finite value in SI units. -/
def capacity : Measure → Binary64
  | degree => largest / pi
  | _ => largest

/-- **A magnitude has a finite value exactly up to the capacity of the unit.** -/
theorem isFinite_toSI_iff (u : Measure) (x : Binary64) :
    (u.toSI x).isFinite = true ↔ x.size ≤ u.capacity.size := by
  have hbelow : (u.toSI u.capacity).isFinite = true := by cases u <;> decide +kernel
  have habove : (u.toSI (above u.capacity)).isFinite = false := by cases u <;> decide +kernel
  constructor
  · intro hfinite
    by_contra hlarge
    have hsize := size_toSI_mono u (size_above_le (not_le.1 hlarge))
    rw [isFinite_of_size_le hsize hfinite] at habove
    exact absurd habove (by decide)
  · intro hsize
    exact isFinite_of_size_le (size_toSI_mono u hsize) hbelow

/-- Degrees are the only unit with finite magnitudes above their capacity. -/
theorem largest_le_capacity_iff (u : Measure) :
    largest.size ≤ u.capacity.size ↔ u ≠ degree := by
  cases u <;> decide +kernel

/-- The factor that would convert degrees in one multiplication. -/
def radiansPerDegree : Binary64 := pi / constant halfTurn 0

/-- **One multiplication would convert every finite number of degrees.** -/
theorem isFinite_mul_radiansPerDegree (hx : x.isFinite = true) :
    (x * radiansPerDegree).isFinite = true ∧ (x * radiansPerDegree).size ≤ x.size := by
  have hsize : (x * radiansPerDegree).size ≤ x.size :=
    size_mul_le_self hx (by decide +kernel) (by decide +kernel)
  exact ⟨isFinite_of_size_le hsize hx, hsize⟩

end Measure

namespace Equation

open Text

variable {s : Shape} {u : Measure}

/-- A shape with a finite number and a known unit is read as that number in that unit. -/
theorem parse_shape_of_finite (hnumeral : s.numeral.nearest.isFinite = true)
    (hunit : Measure.ofSymbol? s.symbol = some u) :
    parse s.text = ofDisplay s.name s.numeral.nearest u := by
  rw [parse_shape s (s.isNumeral.value_eq hnumeral)]
  simp only [ofTokens, Measure.resolve, hunit]
  rfl

/-- **A finite number with a known unit is read up to the capacity of the unit**, as the equation
that the text denotes, with a value that is no larger than the number. Above the capacity the
equation is refused, as one whose value is not finite. Only degrees have finite numbers above their
capacity, and there the value would be finite with one multiplication. -/
theorem parse_iff_capacity (hnumeral : s.numeral.nearest.isFinite = true)
    (hunit : Measure.ofSymbol? s.symbol = some u) :
    ((∃ e, parse s.text = .ok e) ↔ s.numeral.nearest.size ≤ u.capacity.size) ∧
    (∀ e, parse s.text = .ok e → s.Denotes e ∧ e.value.size ≤ s.numeral.nearest.size) ∧
    (u.capacity.size < s.numeral.nearest.size →
      parse s.text = .error (.parse ⟨.infiniteValue s.name, [], 0⟩)) ∧
    (u ≠ .degree → s.numeral.nearest.size ≤ u.capacity.size) ∧
    (s.numeral.nearest * Measure.radiansPerDegree).isFinite = true := by
  have hparse := parse_shape_of_finite hnumeral hunit
  have hfinite := Measure.isFinite_toSI_iff u s.numeral.nearest
  have hrefused : u.capacity.size < s.numeral.nearest.size →
      parse s.text = .error (.parse ⟨.infiniteValue s.name, [], 0⟩) := by
    intro habove
    have hinfinite : (u.toSI s.numeral.nearest).isFinite = false := by
      simpa using mt hfinite.1 (not_le.2 habove)
    rw [hparse, ofDisplay_of_not_finite s.name hinfinite]
  refine ⟨⟨?_, ?_⟩, ?_, hrefused, ?_, (Measure.isFinite_mul_radiansPerDegree hnumeral).1⟩
  · rintro ⟨e, he⟩
    by_contra hlarge
    rw [hrefused (not_le.1 hlarge)] at he
    exact absurd he (by simp)
  · intro hsize
    exact ⟨_, hparse.trans (ofDisplay_of_finite s.name (hfinite.2 hsize))⟩
  · intro e he
    have hdenotes : s.Denotes e := (parse_ok_iff_shape s.text).2.2.1 s e rfl he
    refine ⟨hdenotes, ?_⟩
    obtain rfl : u = e.unit := Option.some.inj (hunit.symm.trans hdenotes.unit)
    have hvalue := e.isFinite
    rw [hdenotes.value] at hvalue ⊢
    exact Measure.size_toSI_le e.unit hvalue
  · intro hu
    exact (size_le_largest hnumeral).trans ((Measure.largest_le_capacity_iff u).2 hu)

theorem isRun_of_no_blanks : ∀ ws ∈ ([[], [], [], [], []] : List Text), IsRun isBlank ws := by simp

/-- The shape of an equation without blanks. -/
def Shape.glued (name : Text) (n : Numeral) (u : Measure) (hname : IsName name)
    (hn : n.IsWellFormed) : Shape :=
  ⟨[], name, [], [], n, [], u.symbol, [], hname, hn, isSymbol_symbol u, isRun_of_no_blanks⟩

/-- A digit with an exponent of three digits. -/
def shortNumeral (digit a b c : Char) : Numeral := ⟨[], [digit], none, some ⟨'e', [], [a, b, c]⟩⟩

theorem isWellFormed_shortNumeral {digit a b c : Char} (h : IsRun Char.isDigit [digit, a, b, c]) :
    (shortNumeral digit a b c).IsWellFormed := by
  simp only [isRun_cons, isRun_nil, and_true] at h
  obtain ⟨hdigit, ha, hb, hc⟩ := h
  refine ⟨.inl rfl, by simpa [shortNumeral] using hdigit, isRun_nil, .inl (by simp [shortNumeral]), ?_⟩
  intro e he
  obtain rfl := Option.some.inj he
  exact ⟨rfl, .inl rfl, by simp [ha, hb, hc], by simp⟩

/-- In degrees `5e307` is read and `6e307` is refused. -/
theorem parse_iff_capacity_degree :
    (∃ e, parse "\"a\"=5e307deg".toList = .ok e) ∧
    parse "\"a\"=6e307deg".toList = .error (.parse ⟨.infiniteValue ['a'], [], 0⟩) := by
  constructor
  · have hlaw := parse_iff_capacity (u := .degree)
      (s := .glued ['a'] (shortNumeral '5' '3' '0' '7') .degree (by simp [IsName])
        (isWellFormed_shortNumeral (by simp)))
      (by decide +kernel) (by decide)
    exact hlaw.1.2 (by decide +kernel)
  · have hlaw := parse_iff_capacity (u := .degree)
      (s := .glued ['a'] (shortNumeral '6' '3' '0' '7') .degree (by simp [IsName])
        (isWellFormed_shortNumeral (by simp)))
      (by decide +kernel) (by decide)
    exact hlaw.2.2.1 (by decide +kernel)

/-- The text of a shape with a finite number and a known unit, refused for the size of a product
with pi. One multiplication gives the value, which is no larger than the number. -/
theorem degrees_refused :
    ∃ s : Shape, s.text = "\"a\"=1e308deg".toList ∧ s.numeral.nearest.isFinite = true ∧
      Measure.ofSymbol? s.symbol = some .degree ∧
      (s.numeral.nearest * Measure.radiansPerDegree).isFinite = true ∧
      parse s.text = .error (.parse ⟨.infiniteValue ['a'], [], 0⟩) :=
  ⟨.glued ['a'] (shortNumeral '1' '3' '0' '8') .degree (by simp [IsName])
      (isWellFormed_shortNumeral (by simp)),
    by decide, by decide +kernel, by decide, by decide +kernel, by decide +kernel⟩

end Equation

end EquationSheet
