/-!
# Binary64 numbers

A finite binary64 number is a sign and a magnitude, counted in units of `2 ^ -1074`, the smallest
positive number. All arithmetic is exact arithmetic on natural numbers followed by one rounding.

* `roundHalfEven`: a quotient rounded to the nearest natural, a half to the even neighbour.
* `isMagnitude_roundMagnitude`: below the overflow limit, what the rounding returns has at most 53
  significant bits, so it is a magnitude of the format.
* `ofQuotient`: the binary64 number nearest to a quotient of units, infinite on overflow.
* `mul`, `div`, `ofInt?`: each is the exact result, rounded once.
-/

namespace EquationSheet

/-- The quotient of two naturals rounded to the nearest natural, a half to the even neighbour. -/
def roundHalfEven (num den : Nat) : Nat :=
  let q := num / den
  let r := num % den
  if 2 * r < den then q else if den < 2 * r then q + 1 else q + q % 2

theorem roundHalfEven_le (num den : Nat) : roundHalfEven num den ≤ num / den + 1 := by
  simp only [roundHalfEven]
  split
  · omega
  · split <;> omega

theorem le_roundHalfEven (num den : Nat) : num / den ≤ roundHalfEven num den := by
  simp only [roundHalfEven]
  split
  · omega
  · split <;> omega

/-! ### Powers of two -/

/-- The power of two with a given exponent. -/
def twoPow (e : Nat) : Nat := Nat.pow 2 e

theorem twoPow_pos (e : Nat) : 0 < twoPow e := Nat.two_pow_pos e

theorem twoPow_add (a b : Nat) : twoPow (a + b) = twoPow a * twoPow b := Nat.pow_add 2 a b

theorem twoPow_le {a b : Nat} (h : a ≤ b) : twoPow a ≤ twoPow b :=
  Nat.pow_le_pow_right (by decide) h

theorem twoPow_dvd {a b : Nat} (h : a ≤ b) : twoPow a ∣ twoPow b := Nat.pow_dvd_pow 2 h

theorem log2_twoPow (e : Nat) : (twoPow e).log2 = e := Nat.log2_two_pow

theorem log2_lt_iff {n k : Nat} (h : n ≠ 0) : n.log2 < k ↔ n < twoPow k := Nat.log2_lt h

theorem lt_twoPow_log2 (n : Nat) : n < twoPow (n.log2 + 1) := Nat.lt_log2_self

/-! ### Magnitudes -/

/-- The least magnitude that is too large for the format: `2 ^ 1024`, in units of `2 ^ -1074`. -/
def overflowLimit : Nat := twoPow 2098

/-- A natural is a magnitude when it is below the overflow limit and has at most 53 significant
bits. -/
def IsMagnitude (n : Nat) : Prop := n < overflowLimit ∧ twoPow (n.log2 - 52) ∣ n

instance : DecidablePred IsMagnitude := fun _ => inferInstanceAs (Decidable (_ ∧ _))

theorem isMagnitude_zero : IsMagnitude 0 := ⟨twoPow_pos _, Nat.dvd_zero _⟩

/-- A number of the binary64 format; the magnitude of a finite one is in units of `2 ^ -1074`. -/
inductive Binary64
  | finite (negative : Bool) (units : Nat) (isMagnitude : IsMagnitude units)
  | infinite (negative : Bool)
  | nan
  deriving DecidableEq

namespace Binary64

/-- Zero keeps a sign. -/
def zero (negative : Bool) : Binary64 := .finite negative 0 isMagnitude_zero

instance : Inhabited Binary64 := ⟨zero false⟩

def isFinite : Binary64 → Bool
  | .finite .. => true
  | _ => false

/-- The spacing of the format at the size of `num / den`, in units. -/
def spacing (num den : Nat) : Nat := twoPow ((num / den).log2 - 52)

/-- The multiple of the spacing nearest to `num / den`. -/
def roundMagnitude (num den : Nat) : Nat :=
  roundHalfEven num (den * spacing num den) * spacing num den

theorem dvd_of_significand_le {m e : Nat} (hm : m ≤ twoPow 53) :
    twoPow ((m * twoPow e).log2 - 52) ∣ m * twoPow e := by
  rcases Nat.eq_zero_or_pos m with rfl | hpos
  · simp
  have hne : m * twoPow e ≠ 0 := Nat.ne_of_gt (Nat.mul_pos hpos (twoPow_pos e))
  rcases Nat.lt_or_eq_of_le hm with hlt | rfl
  · have hlog : (m * twoPow e).log2 < 53 + e := by
      rw [log2_lt_iff hne, twoPow_add]
      exact Nat.mul_lt_mul_of_pos_right hlt (twoPow_pos e)
    exact Nat.dvd_trans (twoPow_dvd (by omega)) (Nat.dvd_mul_left _ _)
  -- the significand was rounded up to the next power of two
  · rw [← twoPow_add, log2_twoPow]
    exact twoPow_dvd (by omega)

theorem significand_le (num den : Nat) :
    roundHalfEven num (den * spacing num den) ≤ twoPow 53 := by
  have hround := roundHalfEven_le num (den * spacing num den)
  have hquot : num / (den * spacing num den) < twoPow 53 := by
    rw [← Nat.div_div_eq_div_mul, spacing]
    refine Nat.div_lt_of_lt_mul ?_
    rw [← twoPow_add]
    exact Nat.lt_of_lt_of_le (lt_twoPow_log2 _) (twoPow_le (by omega))
  omega

/-- **Rounding stays in the format** as long as it stays below the overflow limit. -/
theorem isMagnitude_roundMagnitude {num den : Nat} (h : roundMagnitude num den < overflowLimit) :
    IsMagnitude (roundMagnitude num den) :=
  ⟨h, dvd_of_significand_le (significand_le num den)⟩

/-- The number nearest to `num / den` units, a tie to the even significand. -/
def ofQuotient (negative : Bool) (num den : Nat) : Binary64 :=
  if h : roundMagnitude num den < overflowLimit then
    .finite negative (roundMagnitude num den) (isMagnitude_roundMagnitude h)
  else .infinite negative

/-- The units in one. -/
def one : Nat := twoPow 1074

/-- The number nearest to an integer, unless that lies beyond the largest finite number. -/
def ofInt? (n : Int) : Option Binary64 :=
  match ofQuotient (decide (n < 0)) (n.natAbs * one) 1 with
  | .finite s u h => some (.finite s u h)
  | _ => none

/-- The product, rounded once. -/
def mul : Binary64 → Binary64 → Binary64
  | .finite s a _, .finite t b _ => ofQuotient (s != t) (a * b) one
  | .finite s a _, .infinite t => if a = 0 then .nan else .infinite (s != t)
  | .infinite s, .finite t b _ => if b = 0 then .nan else .infinite (s != t)
  | .infinite s, .infinite t => .infinite (s != t)
  | .nan, _ => .nan
  | _, .nan => .nan

/-- The quotient, rounded once. -/
def div : Binary64 → Binary64 → Binary64
  | .finite s a _, .finite t b _ =>
    if b = 0 then (if a = 0 then .nan else .infinite (s != t)) else ofQuotient (s != t) (a * one) b
  | .finite s _ _, .infinite t => zero (s != t)
  | .infinite s, .finite t _ _ => .infinite (s != t)
  | .infinite _, .infinite _ => .nan
  | .nan, _ => .nan
  | _, .nan => .nan

instance : Mul Binary64 := ⟨mul⟩
instance : Div Binary64 := ⟨div⟩

end Binary64

end EquationSheet
