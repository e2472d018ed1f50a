import EquationSheet.Text.Line
import EquationSheet.Text.Trim
import Mathlib.Tactic

/-!
# Classes of code points

Where the classes of the scanners lie among the code points, and which of them are disjoint.

* `toNat_of_isDigit`, `toNat_of_isAlpha`, `toNat_of_isAlphanum`: the bounds of a class.
* `isWhitespace_of_bounds`: the printing code points of ASCII are no whitespace.
* `isWhitespace_of_isLineBoundary`: the boundaries of lines are.
-/

namespace EquationSheet.Text

variable {c : Char}

theorem isBlank_cases (h : isBlank c = true) : c = ' ' ∨ c = '\t' := by
  simpa [isBlank] using h

theorem toNat_of_isDigit (h : c.isDigit = true) : 48 ≤ c.toNat ∧ c.toNat ≤ 57 := by
  simpa [Char.isDigit, UInt32.le_iff_toNat_le] using h

theorem toNat_of_isAlpha (h : c.isAlpha = true) : 65 ≤ c.toNat ∧ c.toNat ≤ 122 := by
  unfold Char.isAlpha Char.isUpper Char.isLower at h
  simp only [Bool.or_eq_true, Bool.and_eq_true, decide_eq_true_eq, UInt32.le_iff_toNat_le] at h
  change (65 ≤ c.toNat ∧ c.toNat ≤ 90) ∨ (97 ≤ c.toNat ∧ c.toNat ≤ 122) at h
  omega

theorem toNat_of_isAlphanum (h : c.isAlphanum = true) : 48 ≤ c.toNat ∧ c.toNat ≤ 122 := by
  simp only [Char.isAlphanum, Bool.or_eq_true] at h
  rcases h with h | h
  · have hbounds := toNat_of_isAlpha h
    omega
  · have hbounds := toNat_of_isDigit h
    omega

theorem isAlphanum_of_isAlpha (h : c.isAlpha = true) : c.isAlphanum = true := by
  simp [Char.isAlphanum, h]

theorem isDigit_of_isAlpha (h : c.isAlpha = true) : c.isDigit = false := by
  cases hd : c.isDigit with
  | false => rfl
  | true =>
    have halpha := toNat_of_isAlpha h
    have hdigit := toNat_of_isDigit hd
    omega

theorem isBlank_of_bounds (low : 33 ≤ c.toNat) : isBlank c = false := by
  cases hb : isBlank c with
  | false => rfl
  | true => rcases isBlank_cases hb with rfl | rfl <;> exact absurd low (by decide)

/-- No printing code point of ASCII is whitespace. -/
theorem isWhitespace_of_bounds (low : 33 ≤ c.toNat) (high : c.toNat < 128) :
    isWhitespace c = false := by
  unfold isWhitespace
  simp
  omega

theorem isWhitespace_of_isAlphanum (h : c.isAlphanum = true) : isWhitespace c = false := by
  have hbounds := toNat_of_isAlphanum h
  exact isWhitespace_of_bounds (by omega) (by omega)

/-- What ends a line is whitespace. -/
theorem isWhitespace_of_isLineBoundary (h : isLineBoundary c = true) : isWhitespace c = true := by
  simp only [isLineBoundary, isWhitespace, Bool.or_eq_true, Bool.and_eq_true, decide_eq_true_eq,
    beq_iff_eq] at h ⊢
  omega

end EquationSheet.Text
