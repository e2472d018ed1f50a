import EquationSheet.Text.Basic

/-!
# Trimming

Three character classes meet in a sheet. Around tokens only `isBlank` counts; names, values and
lines are trimmed of all Unicode whitespace.

* `trimBy`: a text without the members of a class at its two ends.
* `trim`: the same for whitespace.
* `head?_trimStartBy`: after trimming, the first code point lies outside the class.
-/

namespace EquationSheet.Text

/-- The blanks allowed between tokens are the space and the tab. -/
def isBlank (c : Char) : Bool := c == ' ' || c == '\t'

/-- The whitespace of Unicode, with the four information separators. -/
def isWhitespace (c : Char) : Bool :=
  let n := c.toNat
  (decide (9 ≤ n) && decide (n ≤ 13)) || (decide (28 ≤ n) && decide (n ≤ 32)) ||
    n == 133 || n == 160 || n == 5760 || (decide (8192 ≤ n) && decide (n ≤ 8202)) ||
    n == 8232 || n == 8233 || n == 8239 || n == 8287 || n == 12288

/-- The text behind its leading blanks. -/
def skipBlanks (t : Text) : Text := t.dropWhile isBlank

/-- The text without the members of `p` at its start. -/
def trimStartBy (p : Char → Bool) (t : Text) : Text := t.dropWhile p

/-- The text without the members of `p` at its end. -/
def trimEndBy (p : Char → Bool) (t : Text) : Text := (t.reverse.dropWhile p).reverse

/-- The text without the members of `p` at its two ends. -/
def trimBy (p : Char → Bool) (t : Text) : Text := trimEndBy p (trimStartBy p t)

/-- The text without whitespace at its two ends. -/
def trim (t : Text) : Text := trimBy isWhitespace t

theorem isWhitespace_of_isBlank {c : Char} (h : isBlank c = true) : isWhitespace c = true := by
  simp only [isBlank, Bool.or_eq_true, beq_iff_eq] at h
  rcases h with rfl | rfl <;> decide

theorem head?_trimStartBy {p : Char → Bool} {t : Text} {c : Char}
    (h : (trimStartBy p t).head? = some c) : p c = false := by
  induction t with
  | nil => simp [trimStartBy] at h
  | cons d rest ih =>
    simp only [trimStartBy, List.dropWhile_cons] at h
    split at h
    · exact ih h
    · simp_all

end EquationSheet.Text
