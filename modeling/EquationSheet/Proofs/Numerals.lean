import EquationSheet.Numeral.Value
import EquationSheet.Proofs.Classes
import EquationSheet.Proofs.Runs

/-!
# The grammar of numerals

A numeral is `sign? (digit+ ('.' digit*)? | '.' digit+) ([eE] sign? digit+)?`. The scanner takes
every part where it can and never looks back; these lemmas show that it finds exactly the numerals
of the grammar.

* `scan_of_endsBefore`, `scan_append`: a numeral in front of a text that does not extend it is
  scanned whole.
* `isWellFormed_scan`: whatever is scanned with a digit before its exponent is a numeral.
* `isRun_text`: which code points a numeral is made of.
* `read_append`, `exists_of_read`: reading finds a numeral and its nearest number.
-/

namespace EquationSheet

open Text

/-- An optional sign. -/
def IsSign (t : Text) : Prop := t = [] ∨ t = ['+'] ∨ t = ['-']

/-- An exponent of the grammar: `[eE] sign? digit+`. -/
structure Exponent.IsWellFormed (e : Exponent) : Prop where
  marker : Numeral.isExponentMarker e.marker = true
  sign : IsSign e.sign
  digits : IsRun Char.isDigit e.digits
  digits_ne : e.digits ≠ []

/-- A numeral of the grammar. Its mantissa is `digit+ ('.' digit*)? | '.' digit+`: it has digits
before the point, or a point with digits behind it. -/
structure Numeral.IsWellFormed (n : Numeral) : Prop where
  sign : IsSign n.sign
  whole : IsRun Char.isDigit n.whole
  fraction : IsRun Char.isDigit n.fractionDigits
  mantissa : n.whole ≠ [] ∨ ∃ ds, n.fraction = some ds ∧ ds ≠ []
  exponent : ∀ e ∈ n.exponent, e.IsWellFormed

namespace Numeral

/-- The number nearest to what a numeral denotes. -/
def nearest (n : Numeral) : Binary64 := n.decimal.toBinary64 (n.sign == ['-'])

/-- The text does not begin with a digit, a point, or an exponent: it cannot extend a numeral. -/
structure Stops (rest : Text) : Prop where
  digit : StartsOutside Char.isDigit rest
  point : StartsOutside (· == '.') rest
  exponent : (scanExponent rest).1 = none

/-- The text does not extend the numeral. It begins with no digit, with no point where the numeral
may still get one, and with no exponent where it has none. -/
structure EndsBefore (n : Numeral) (rest : Text) : Prop where
  digit : StartsOutside Char.isDigit rest
  point : n.fraction = none → n.exponent = none → StartsOutside (· == '.') rest
  exponent : n.exponent = none → (scanExponent rest).1 = none

theorem Stops.endsBefore {rest : Text} (h : Stops rest) (n : Numeral) : n.EndsBefore rest :=
  ⟨h.digit, fun _ _ => h.point, fun _ => h.exponent⟩

theorem mantissa_ne_nil_iff (n : Numeral) :
    n.mantissa ≠ [] ↔ n.whole ≠ [] ∨ ∃ ds, n.fraction = some ds ∧ ds ≠ [] := by
  unfold mantissa fractionDigits
  cases n.fraction <;> simp [← not_and_or]

theorem IsWellFormed.mantissa_ne {n : Numeral} (hn : n.IsWellFormed) : n.mantissa ≠ [] :=
  n.mantissa_ne_nil_iff.2 hn.mantissa

theorem IsWellFormed.isRun_fraction {n : Numeral} (hn : n.IsWellFormed) {ds : Text}
    (hfraction : n.fraction = some ds) : IsRun Char.isDigit ds := by
  have h := hn.fraction
  rwa [fractionDigits, hfraction] at h

/-! ### Scanning the parts -/

/-- A sign. -/
def isSignChar (c : Char) : Bool := c == '+' || c == '-'

theorem isSignChar_of_isDigit {c : Char} (h : c.isDigit = true) : isSignChar c = false := by
  rcases hc : isSignChar c with - | -
  · rfl
  · simp only [isSignChar, Bool.or_eq_true, beq_iff_eq] at hc
    rcases hc with rfl | rfl <;> exact absurd h (by decide)

theorem scanSign_append_of {sign t : Text} (hs : IsSign sign) (ht : StartsOutside isSignChar t) :
    scanSign (sign ++ t) = (sign, t) := by
  rcases hs with rfl | rfl | rfl
  · rw [List.nil_append]
    unfold scanSign
    -- a sign in front of the rest would have been taken for the missing one
    split
    · simp [isSignChar] at ht
    · simp [isSignChar] at ht
    · rfl
  · rfl
  · rfl

theorem isSign_scanSign (t : Text) : IsSign (scanSign t).1 := by
  unfold scanSign IsSign
  split <;> simp

theorem scanDigits_run {ds t : Text} (hd : IsRun Char.isDigit ds)
    (ht : StartsOutside Char.isDigit t) : scanDigits (ds ++ t) = (ds, t) := by
  unfold scanDigits
  rw [takeWhile_run hd ht, dropWhile_run hd ht]

theorem isRun_scanDigits (t : Text) : IsRun Char.isDigit (scanDigits t).1 := isRun_takeWhile

theorem scanFraction_append_of {fraction : Option Text} {t : Text}
    (hf : IsRun Char.isDigit (fraction.getD [])) (ht : StartsOutside Char.isDigit t)
    (hp : fraction = none → StartsOutside (· == '.') t) :
    scanFraction (fractionText fraction ++ t) = (fraction, t) := by
  cases fraction with
  | none =>
    have hpoint := hp rfl
    simp only [fractionText, List.nil_append]
    unfold scanFraction
    split
    · simp at hpoint
    · rfl
  | some ds =>
    simp only [Option.getD_some] at hf
    simp only [fractionText, List.cons_append, scanFraction, scanDigits_run hf ht]

theorem isRun_scanFraction (t : Text) : IsRun Char.isDigit ((scanFraction t).1.getD []) := by
  unfold scanFraction
  split
  · exact isRun_scanDigits _
  · simp

theorem scanExponent_append_of {exponent : Option Exponent} {t : Text}
    (he : ∀ e ∈ exponent, e.IsWellFormed) (hd : StartsOutside Char.isDigit t)
    (hx : exponent = none → (scanExponent t).1 = none) :
    scanExponent (exponentText exponent ++ t) = (exponent, t) := by
  cases exponent with
  | none =>
    -- nothing was scanned, so the text is still whole
    have h := scanExponent_append t
    rw [hx rfl] at h
    exact Prod.ext (hx rfl) (by simpa [exponentText] using h)
  | some e =>
    have h := he e rfl
    have hstart : StartsOutside isSignChar (e.digits ++ t) :=
      (startsOutside_append_left h.digits_ne).2
        (h.digits.startsOutside fun _ => isSignChar_of_isDigit)
    simp only [exponentText, Exponent.text, List.cons_append, List.append_assoc, scanExponent]
    rw [scanSign_append_of h.sign hstart, scanDigits_run h.digits hd]
    simp [h.marker, h.digits_ne]

theorem isWellFormed_scanExponent (t : Text) : ∀ e ∈ (scanExponent t).1, e.IsWellFormed := by
  intro e he
  cases t with
  | nil => simp [scanExponent] at he
  | cons c t =>
    simp only [scanExponent] at he
    split at he
    · rename_i hc
      simp only [Bool.and_eq_true, Bool.not_eq_true', List.isEmpty_eq_false_iff] at hc
      simp only [Option.mem_def, Option.some.injEq] at he
      subst he
      exact ⟨hc.1, isSign_scanSign _, isRun_scanDigits _, hc.2⟩
    · simp at he

/-! ### Scanning a numeral -/

/-- What follows the digits of a numeral begins with no digit. -/
theorem exponentText_startsOutside {q : Char → Bool} {exponent : Option Exponent} {t : Text}
    (he : ∀ e ∈ exponent, e.IsWellFormed) (hq : ∀ c, isExponentMarker c = true → q c = false)
    (ht : exponent = none → StartsOutside q t) : StartsOutside q (exponentText exponent ++ t) := by
  cases exponent with
  | none => exact ht rfl
  | some e => simpa [exponentText, Exponent.text] using hq _ (he e rfl).marker

theorem isDigit_of_isExponentMarker {c : Char} (h : isExponentMarker c = true) :
    c.isDigit = false := by
  simp only [isExponentMarker, Bool.or_eq_true, beq_iff_eq] at h
  rcases h with rfl | rfl <;> decide

theorem ne_point_of_isExponentMarker {c : Char} (h : isExponentMarker c = true) :
    (c == '.') = false := by
  simp only [isExponentMarker, Bool.or_eq_true, beq_iff_eq] at h
  rcases h with rfl | rfl <;> decide

theorem fractionText_startsOutside {q : Char → Bool} {fraction : Option Text} {t : Text}
    (hq : q '.' = false) (ht : StartsOutside q t) : StartsOutside q (fractionText fraction ++ t) := by
  cases fraction with
  | none => exact ht
  | some ds => simpa [fractionText] using hq

theorem mantissa_startsOutside {n : Numeral} (hn : n.IsWellFormed) (t : Text) :
    StartsOutside isSignChar (n.whole ++ (fractionText n.fraction ++ t)) := by
  refine startsOutside_append (hn.whole.startsOutside fun _ => isSignChar_of_isDigit) fun h => ?_
  -- without digits in front there is a point
  rcases hn.mantissa with hw | ⟨ds, hf, -⟩
  · exact absurd h hw
  · rw [hf]; simp [fractionText, isSignChar]

/-- **A numeral is scanned whole** in front of a text that does not extend it. -/
theorem scan_of_endsBefore {n : Numeral} (hn : n.IsWellFormed) {rest : Text}
    (hr : n.EndsBefore rest) : scan (n.text ++ rest) = (n, rest) := by
  have hdigit : StartsOutside Char.isDigit (exponentText n.exponent ++ rest) :=
    exponentText_startsOutside hn.exponent (fun _ => isDigit_of_isExponentMarker) fun _ => hr.digit
  have hpoint : n.fraction = none → StartsOutside (· == '.') (exponentText n.exponent ++ rest) :=
    fun hf => exponentText_startsOutside hn.exponent (fun _ => ne_point_of_isExponentMarker)
      (hr.point hf)
  have hwhole : StartsOutside Char.isDigit
      (fractionText n.fraction ++ (exponentText n.exponent ++ rest)) :=
    fractionText_startsOutside (by decide) hdigit
  unfold scan text
  simp only [List.append_assoc]
  rw [scanSign_append_of hn.sign (mantissa_startsOutside hn _)]
  simp only
  rw [scanDigits_run hn.whole hwhole]
  simp only
  rw [scanFraction_append_of hn.fraction hdigit hpoint]
  simp only
  rw [scanExponent_append_of hn.exponent hr.digit hr.exponent]

/-- A text that cannot extend any numeral does not extend this one. -/
theorem scan_append {n : Numeral} (hn : n.IsWellFormed) {rest : Text} (hr : Stops rest) :
    scan (n.text ++ rest) = (n, rest) := scan_of_endsBefore hn (hr.endsBefore n)

/-- **What is scanned is a numeral** as soon as it has a digit before its exponent. -/
theorem isWellFormed_scan {t : Text} (h : (scan t).1.mantissa ≠ []) : (scan t).1.IsWellFormed where
  sign := isSign_scanSign t
  whole := isRun_scanDigits _
  fraction := isRun_scanFraction _
  mantissa := (mantissa_ne_nil_iff _).1 h
  exponent := isWellFormed_scanExponent _

/-! ### What stands behind a numeral -/

/-- A letter or a blank. -/
def isLetterOrBlank (c : Char) : Bool := c.isAlpha || isBlank c

theorem outside_of_isLetterOrBlank {c : Char} (h : isLetterOrBlank c = true) :
    c.isDigit = false ∧ (c == '.') = false ∧ isSignChar c = false := by
  simp only [isLetterOrBlank, Bool.or_eq_true] at h
  rcases h with h | h
  · refine ⟨isDigit_of_isAlpha h, ?_, ?_⟩
    · rw [beq_eq_false_iff_ne]; rintro rfl; exact absurd h (by decide)
    · simp only [isSignChar, Bool.or_eq_false_iff, beq_eq_false_iff_ne]
      constructor <;> rintro rfl <;> exact absurd h (by decide)
  · rcases isBlank_cases h with rfl | rfl <;> decide

/-- A marker that no sign and no digit follow opens no exponent. -/
theorem scanExponent_eq_none {c : Char} {t : Text} (hs : StartsOutside isSignChar t)
    (hd : StartsOutside Char.isDigit t) : (scanExponent (c :: t)).1 = none := by
  have hsign : scanSign t = ([], t) := scanSign_append_of (.inl rfl) hs
  have hdigits : scanDigits t = ([], t) := scanDigits_run isRun_nil hd
  simp [scanExponent, hsign, hdigits]

/-- **Letters and blanks extend no numeral.** -/
theorem stops_of_isRun {t : Text} (h : IsRun isLetterOrBlank t) : Stops t := by
  have houtside := fun c (hc : isLetterOrBlank c = true) => outside_of_isLetterOrBlank hc
  refine ⟨h.startsOutside fun c hc => (houtside c hc).1,
    h.startsOutside fun c hc => (houtside c hc).2.1, ?_⟩
  cases t with
  | nil => rfl
  | cons c t =>
    have ht : IsRun isLetterOrBlank t := (isRun_cons.1 h).2
    exact scanExponent_eq_none (ht.startsOutside fun c hc => (houtside c hc).2.2)
      (ht.startsOutside fun c hc => (houtside c hc).1)

/-- A numeral that makes up a whole text is scanned there. -/
theorem scan_of_isWellFormed {n : Numeral} (hn : n.IsWellFormed) : scan n.text = (n, []) := by
  have h := scan_append hn (stops_of_isRun isRun_nil)
  rwa [List.append_nil] at h

/-! ### The code points of a numeral -/

/-- A code point that numerals are made of. -/
def isNumeralChar (c : Char) : Bool := c.isDigit || isSignChar c || c == '.' || isExponentMarker c

/-- Those code points lie between the plus sign and the letter `e`, and the equals sign is none. -/
theorem bounds_of_isNumeralChar {c : Char} (h : isNumeralChar c = true) :
    43 ≤ c.toNat ∧ c.toNat ≤ 101 ∧ c ≠ '=' := by
  simp only [isNumeralChar, isSignChar, isExponentMarker, Bool.or_eq_true, beq_iff_eq] at h
  rcases h with ((h | h) | h) | h
  · have hd := toNat_of_isDigit h
    refine ⟨by omega, by omega, ?_⟩
    rintro rfl
    exact absurd h (by decide)
  · rcases h with rfl | rfl <;> decide
  · rw [h]; decide
  · rcases h with rfl | rfl <;> decide

theorem isRun_of_isSign {q : Char → Bool} {t : Text} (h : IsSign t) (hplus : q '+' = true)
    (hminus : q '-' = true) : IsRun q t := by
  rcases h with rfl | rfl | rfl
  · exact isRun_nil
  · simpa using hplus
  · simpa using hminus

theorem isRun_exponentText_iff {q : Char → Bool} {exponent : Option Exponent}
    (he : ∀ e ∈ exponent, e.IsWellFormed) (hq : ∀ c : Char, c.isDigit = true → q c = true) :
    IsRun q (exponentText exponent) ↔ ∀ e ∈ exponent, q e.marker = true ∧ IsRun q e.sign := by
  cases exponent with
  | none => simp [exponentText]
  | some e =>
    have hdigits : IsRun q e.digits := (he e rfl).digits.imp hq
    simp [exponentText, Exponent.text, hdigits]

/-- **A class that has the digits** has the whole text of a numeral if it has the signs, the point
and the marker that the numeral is written with. -/
theorem isRun_text_iff {n : Numeral} (hn : n.IsWellFormed) {q : Char → Bool}
    (hq : ∀ c : Char, c.isDigit = true → q c = true) : IsRun q n.text ↔
      IsRun q n.sign ∧ (n.fraction ≠ none → q '.' = true) ∧
        ∀ e ∈ n.exponent, q e.marker = true ∧ IsRun q e.sign := by
  have hwhole : IsRun q n.whole := hn.whole.imp hq
  have hfraction : IsRun q (fractionText n.fraction) ↔ (n.fraction ≠ none → q '.' = true) := by
    cases hf : n.fraction with
    | none => simp [fractionText]
    | some ds =>
      have hdigits : IsRun q ds := (hn.isRun_fraction hf).imp hq
      simp [fractionText, hdigits]
  unfold text
  rw [isRun_append, isRun_append, isRun_append, hfraction, isRun_exponentText_iff hn.exponent hq,
    and_iff_left hwhole, and_assoc]

/-- **A numeral has no other code points.** -/
theorem IsWellFormed.isRun_text {n : Numeral} (hn : n.IsWellFormed) :
    IsRun isNumeralChar n.text := by
  have hdigit : ∀ c : Char, c.isDigit = true → isNumeralChar c = true := by
    intro c hc; simp [isNumeralChar, hc]
  refine (isRun_text_iff hn hdigit).2 ⟨isRun_of_isSign hn.sign rfl rfl, fun _ => rfl, fun e he => ?_⟩
  have hwf := hn.exponent e he
  exact ⟨by simp [isNumeralChar, hwf.marker], isRun_of_isSign hwf.sign rfl rfl⟩

theorem text_ne_nil {n : Numeral} (h : n.mantissa ≠ []) : n.text ≠ [] := by
  intro ht
  apply h
  simp only [text, List.append_eq_nil_iff] at ht
  obtain ⟨⟨⟨-, hw⟩, hf⟩, -⟩ := ht
  unfold mantissa fractionDigits
  cases hfr : n.fraction with
  | none => simp [hw]
  | some ds => simp [hfr, fractionText] at hf

theorem isWhitespace_of_isNumeralChar {c : Char} (h : isNumeralChar c = true) :
    isWhitespace c = false := by
  have hbounds := bounds_of_isNumeralChar h
  exact isWhitespace_of_bounds (by omega) (by omega)

/-- A numeral begins with one of its code points. -/
theorem startsOutside_text {p : Char → Bool} {n : Numeral} (hn : n.IsWellFormed)
    (hp : ∀ c, isNumeralChar c = true → p c = false) {rest : Text} :
    StartsOutside p (n.text ++ rest) :=
  (startsOutside_append_left (text_ne_nil hn.mantissa_ne)).2 (hn.isRun_text.startsOutside hp)

/-! ### Reading -/

/-- The value of a numeral is its nearest number, which has to be finite. -/
theorem value_eq_ok_iff {n : Numeral} {x : Binary64} :
    n.value = .ok x ↔ n.mantissa ≠ [] ∧ n.nearest = x ∧ x.isFinite = true := by
  unfold value nearest
  cases hm : n.mantissa.isEmpty
  · have hne : n.mantissa ≠ [] := by simpa using hm
    rw [if_neg (by simp)]
    cases hx : n.decimal.toBinary64 (n.sign == ['-']) with
    | finite s u h =>
      constructor
      · rintro ⟨⟩; exact ⟨hne, rfl, rfl⟩
      · rintro ⟨-, rfl, -⟩; rfl
    | infinite s =>
      constructor
      · intro h; simp at h
      · rintro ⟨-, rfl, h⟩; simp [Binary64.isFinite] at h
    | nan =>
      constructor
      · intro h; simp at h
      · rintro ⟨-, rfl, h⟩; simp [Binary64.isFinite] at h
  · have hnil : n.mantissa = [] := by simpa using hm
    simp [hnil]

theorem IsWellFormed.value_eq {n : Numeral} (hn : n.IsWellFormed)
    (hfinite : n.nearest.isFinite = true) : n.value = .ok n.nearest :=
  value_eq_ok_iff.2 ⟨hn.mantissa_ne, rfl, hfinite⟩

/-- What is scanned is read with its value, if it has a digit before its exponent. -/
theorem read_of_scan {n : Numeral} {t rest : Text} (hscan : scan t = (n, rest))
    (hm : n.mantissa ≠ []) : read t = n.value.map (·, rest) := by
  unfold read
  rw [hscan]
  simp [text_ne_nil hm]

theorem read_append {n : Numeral} (hn : n.IsWellFormed) {rest : Text} (hr : Stops rest) :
    read (n.text ++ rest) = n.value.map (·, rest) := read_of_scan (scan_append hn hr) hn.mantissa_ne

/-- **Reading finds a numeral** and answers its nearest number, if that is finite. -/
theorem exists_of_read {t rest : Text} {x : Binary64} (h : read t = .ok (x, rest)) :
    ∃ n : Numeral, n.IsWellFormed ∧ scan t = (n, rest) ∧ t = n.text ++ rest ∧ n.nearest = x ∧
      x.isFinite = true := by
  unfold read at h
  have htext := scan_text t
  have hwf := isWellFormed_scan (t := t)
  generalize hscan : scan t = s at h htext hwf
  obtain ⟨n, r⟩ := s
  simp only at h htext hwf
  split at h
  · simp at h
  · cases hv : n.value with
    | error f => rw [hv] at h; simp [Except.map] at h
    | ok y =>
      rw [hv] at h
      simp only [Except.map, Except.ok.injEq, Prod.mk.injEq] at h
      obtain ⟨rfl, rfl⟩ := h
      obtain ⟨hm, hx, hfin⟩ := value_eq_ok_iff.1 hv
      exact ⟨n, hwf hm, rfl, htext.symm, hx, hfin⟩

end Numeral

end EquationSheet
