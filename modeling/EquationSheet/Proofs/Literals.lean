import EquationSheet.Proofs.NumeralLanguage

/-!
# Strict literals

A strict literal has digits before its point, digits behind it if it has a point, an exponent only
behind a fraction, and no sign. The pattern nests these parts in one another, where the grammar of
numerals makes each of them optional, so the two are compared by the parts that a numeral has. The
parts are read off its text: a point stands nowhere but in front of a fraction, a sign nowhere but in
front of the digits and of those of the exponent.

* `IsLiteral`, `IsLiteralText`: the literals among the numerals, by their parts and by their text.
* `isLiteral_iff`: the parts of a numeral are those of a literal if its text is that of one.
* `isStrict_iff_isLiteral`: the strict pattern is that of the literals.
* `parseStrict_of_isStrict`: what has the pattern is read as any numeral is.
* `parseStrict_ok_iff_isLiteralText`: **the strict grammar is a restriction of the other one**.
-/

namespace EquationSheet.Numeral

open Text

variable {n : Numeral} {t : Text} {x : Binary64}

/-- The parts of a literal: no sign, digits before the point, digits behind it if it is there, and
an exponent only behind a fraction. -/
structure IsLiteral (n : Numeral) : Prop where
  sign : n.sign = []
  whole : n.whole ≠ []
  fraction : n.fraction ≠ some []
  exponent : ∀ e ∈ n.exponent, e.sign = [] ∧ n.fraction ≠ none

/-- The text begins with a digit. -/
def BeginsWithDigit (t : Text) : Prop := ∃ c ∈ t.head?, c.isDigit = true

/-- The text has no sign anywhere, begins with a digit, has a digit behind its point if it has a
point, and has an exponent only if it has a point. -/
structure IsLiteralText (t : Text) : Prop where
  unsigned : ∀ c ∈ t, isSignChar c = false
  whole : BeginsWithDigit t
  fraction : ∀ before behind, t = before ++ '.' :: behind → BeginsWithDigit behind
  exponent : (∃ c ∈ t, isExponentMarker c = true) → '.' ∈ t

/-! ### The parts of a numeral in its text -/

theorem isSignChar_of_isExponentMarker {c : Char} (h : isExponentMarker c = true) :
    isSignChar c = false := by
  simp only [isExponentMarker, Bool.or_eq_true, beq_iff_eq] at h
  rcases h with rfl | rfl <;> decide

/-- Where a sign may stand none does if no code point there is a sign. -/
theorem isRun_unsigned_iff (h : IsSign t) : IsRun (fun c => !isSignChar c) t ↔ t = [] := by
  rcases h with rfl | rfl | rfl <;> simp [isSignChar]

/-- A numeral is written without signs if it has none, and neither has its exponent. -/
theorem unsigned_text_iff (hn : n.IsWellFormed) : (∀ c ∈ n.text, isSignChar c = false) ↔
    n.sign = [] ∧ ∀ e ∈ n.exponent, e.sign = [] := by
  have hrun := isRun_text_iff hn (q := fun c => !isSignChar c)
    fun c hc => by simp [isSignChar_of_isDigit hc]
  have hsigns : (∀ e ∈ n.exponent, (!isSignChar e.marker) = true ∧
      IsRun (fun c => !isSignChar c) e.sign) ↔ ∀ e ∈ n.exponent, e.sign = [] := by
    refine forall₂_congr fun e he => ?_
    have hwf := hn.exponent e he
    rw [isSignChar_of_isExponentMarker hwf.marker, isRun_unsigned_iff hwf.sign]
    simp
  rw [hsigns, isRun_unsigned_iff hn.sign] at hrun
  simpa [IsRun, isSignChar] using hrun

/-- Of a class that has the signs too, only the point and the marker count. -/
theorem isRun_text_iff_of_signs (hn : n.IsWellFormed) {q : Char → Bool}
    (hq : ∀ c : Char, c.isDigit = true → q c = true) (hplus : q '+' = true)
    (hminus : q '-' = true) : IsRun q n.text ↔
      (n.fraction ≠ none → q '.' = true) ∧ ∀ e ∈ n.exponent, q e.marker = true := by
  have hsign : IsRun q n.sign := isRun_of_isSign hn.sign hplus hminus
  have hmarkers : (∀ e ∈ n.exponent, q e.marker = true ∧ IsRun q e.sign) ↔
      ∀ e ∈ n.exponent, q e.marker = true :=
    forall₂_congr fun e he =>
      and_iff_left (isRun_of_isSign (hn.exponent e he).sign hplus hminus)
  rw [isRun_text_iff hn hq, hmarkers, and_iff_right hsign]

theorem isRun_pointless_iff : IsRun (· != '.') t ↔ '.' ∉ t := by
  simp only [IsRun, bne_iff_ne]
  exact ⟨fun h hmem => h _ hmem rfl, fun h c hc hpoint => h (hpoint ▸ hc)⟩

theorem ne_point_of_isDigit {c : Char} (h : c.isDigit = true) : (c != '.') = true := by
  rw [bne_iff_ne]
  rintro rfl
  exact absurd h (by decide)

/-- A numeral is written with a point if it has a fraction. -/
theorem point_mem_text_iff (hn : n.IsWellFormed) : '.' ∈ n.text ↔ n.fraction ≠ none := by
  have hrun := isRun_text_iff_of_signs hn (fun _ => ne_point_of_isDigit) rfl rfl
  have hmarkers : ∀ e ∈ n.exponent, (e.marker != '.') = true := fun e he => by
    simpa using ne_point_of_isExponentMarker (hn.exponent e he).marker
  rw [isRun_pointless_iff, and_iff_left hmarkers] at hrun
  rw [← not_iff_not, hrun]
  simp

/-- A numeral is written with the letter of an exponent if it has one. -/
theorem exists_marker_iff (hn : n.IsWellFormed) :
    (∃ c ∈ n.text, isExponentMarker c = true) ↔ n.exponent ≠ none := by
  have hrun := isRun_text_iff_of_signs hn (q := fun c => !isExponentMarker c)
    (fun c hc => by
      cases hmarker : isExponentMarker c with
      | false => rfl
      | true => rw [isDigit_of_isExponentMarker hmarker] at hc; exact absurd hc (by decide))
    rfl rfl
  have hfree : IsRun (fun c => !isExponentMarker c) n.text ↔
      ¬∃ c ∈ n.text, isExponentMarker c = true := by
    simp [IsRun]
  rw [hfree] at hrun
  rw [← not_iff_not, hrun]
  cases he : n.exponent with
  | none => simp [isExponentMarker]
  | some e => simp [(hn.exponent e he).marker]

/-! ### Where digits stand -/

theorem beginsWithDigit_append {a b : Text} (ha : IsRun Char.isDigit a)
    (hb : StartsOutside Char.isDigit b) : BeginsWithDigit (a ++ b) ↔ a ≠ [] := by
  cases a with
  | nil =>
    simp only [List.nil_append, ne_eq, not_true_eq_false, iff_false]
    rintro ⟨c, hc, hdigit⟩
    rw [hb c hc] at hdigit
    exact Bool.noConfusion hdigit
  | cons c a =>
    have hc : c.isDigit = true := (isRun_cons.1 ha).1
    simp [BeginsWithDigit, hc]

theorem startsOutside_exponentText {exponent : Option Exponent}
    (he : ∀ e ∈ exponent, e.IsWellFormed) : StartsOutside Char.isDigit (exponentText exponent) := by
  have h := exponentText_startsOutside (t := []) he (fun _ => isDigit_of_isExponentMarker)
    fun _ => startsOutside_nil
  rwa [List.append_nil] at h

/-- A numeral without a sign begins with a digit if it has digits before its point. -/
theorem beginsWithDigit_text_iff (hn : n.IsWellFormed) (hsign : n.sign = []) :
    BeginsWithDigit n.text ↔ n.whole ≠ [] := by
  unfold text
  rw [hsign, List.nil_append, List.append_assoc]
  exact beginsWithDigit_append hn.whole
    (fractionText_startsOutside (by decide) (startsOutside_exponentText hn.exponent))

/-- The text of a numeral divides in one way at a point: in front of the digits of its fraction. -/
theorem text_eq_iff_of_fraction (hn : n.IsWellFormed) {ds before behind : Text}
    (hfraction : n.fraction = some ds) : n.text = before ++ '.' :: behind ↔
      n.sign ++ n.whole = before ∧ ds ++ exponentText n.exponent = behind := by
  have hbefore : '.' ∉ n.sign ++ n.whole := by
    rw [← isRun_pointless_iff, isRun_append]
    exact ⟨isRun_of_isSign hn.sign rfl rfl, hn.whole.imp fun _ => ne_point_of_isDigit⟩
  have hbehind : '.' ∉ ds ++ exponentText n.exponent := by
    rw [← isRun_pointless_iff, isRun_append,
      isRun_exponentText_iff hn.exponent fun _ => ne_point_of_isDigit]
    refine ⟨(hn.isRun_fraction hfraction).imp fun _ => ne_point_of_isDigit, fun e he => ?_⟩
    have hwf := hn.exponent e he
    exact ⟨by simpa using ne_point_of_isExponentMarker hwf.marker,
      isRun_of_isSign hwf.sign rfl rfl⟩
  have htext : n.text = (n.sign ++ n.whole) ++ '.' :: (ds ++ exponentText n.exponent) := by
    simp [text, hfraction, fractionText]
  rw [htext, List.append_cons_inj_of_notMem hbefore hbehind]
  simp

/-! ### Literals by their parts and by their text -/

/-- **A numeral is a literal if its text is that of one.** -/
theorem isLiteral_iff (hn : n.IsWellFormed) : n.IsLiteral ↔ IsLiteralText n.text := by
  have hends := startsOutside_exponentText hn.exponent
  constructor
  · intro h
    refine ⟨(unsigned_text_iff hn).2 ⟨h.sign, fun e he => (h.exponent e he).1⟩,
      (beginsWithDigit_text_iff hn h.sign).2 h.whole, fun before behind htext => ?_,
      fun hmarker => ?_⟩
    · -- the point is that of the fraction, so what is behind it begins with the digits of this
      have hpoint : '.' ∈ n.text := by simp [htext]
      obtain ⟨ds, hds⟩ := Option.ne_none_iff_exists'.1 ((point_mem_text_iff hn).1 hpoint)
      obtain ⟨-, rfl⟩ := (text_eq_iff_of_fraction hn hds).1 htext
      have hne : ds ≠ [] := by
        rintro rfl
        exact h.fraction hds
      exact (beginsWithDigit_append (hn.isRun_fraction hds) hends).2 hne
    · obtain ⟨e, he⟩ := Option.ne_none_iff_exists'.1 ((exists_marker_iff hn).1 hmarker)
      exact (point_mem_text_iff hn).2 (h.exponent e he).2
  · intro h
    obtain ⟨hsign, hsigns⟩ := (unsigned_text_iff hn).1 h.unsigned
    refine ⟨hsign, (beginsWithDigit_text_iff hn hsign).1 h.whole, fun hempty => ?_,
      fun e he => ⟨hsigns e he, ?_⟩⟩
    · -- behind a point without digits there is an exponent or nothing
      have hdigit := h.fraction _ _ ((text_eq_iff_of_fraction hn hempty).2 ⟨rfl, rfl⟩)
      exact (beginsWithDigit_append isRun_nil hends).1 hdigit rfl
    · have hmarker := (exists_marker_iff hn).2 (Option.ne_none_iff_exists'.2 ⟨e, he⟩)
      exact (point_mem_text_iff hn).1 (h.exponent hmarker)

/-! ### The strict pattern -/

/-- An exponent of the pattern has no sign, and it may be missing. -/
theorem isStrictExponent_iff : isStrictExponent t = true ↔ ∃ exponent : Option Exponent,
    (∀ e ∈ exponent, e.IsWellFormed ∧ e.sign = []) ∧ exponentText exponent = t := by
  constructor
  · intro h
    cases t with
    | nil => exact ⟨none, by simp, rfl⟩
    | cons c digits =>
      simp only [isStrictExponent, Bool.and_eq_true, Bool.not_eq_true', List.isEmpty_eq_false_iff,
        List.all_eq_true] at h
      obtain ⟨⟨hmarker, hne⟩, hdigits⟩ := h
      refine ⟨some ⟨c, [], digits⟩, fun e he => ?_, rfl⟩
      obtain rfl := Option.some.inj he
      exact ⟨⟨hmarker, .inl rfl, hdigits, hne⟩, rfl⟩
  · rintro ⟨exponent, hwf, rfl⟩
    cases exponent with
    | none => rfl
    | some e =>
      obtain ⟨he, hsign⟩ := hwf e rfl
      have hdigits : e.digits.all Char.isDigit = true := List.all_eq_true.2 he.digits
      simp [exponentText, Exponent.text, isStrictExponent, hsign, he.marker, he.digits_ne, hdigits]

/-- The pattern behind the digits before the point: nothing, or a point with digits, and only then
an exponent. -/
theorem isStrictFraction_iff : isStrictFraction t = true ↔
    ∃ (fraction : Option Text) (exponent : Option Exponent),
      (∀ ds ∈ fraction, IsRun Char.isDigit ds ∧ ds ≠ []) ∧
      (∀ e ∈ exponent, e.IsWellFormed ∧ e.sign = [] ∧ fraction ≠ none) ∧
      fractionText fraction ++ exponentText exponent = t := by
  constructor
  · intro h
    cases t with
    | nil => exact ⟨none, none, by simp, by simp, rfl⟩
    | cons c rest =>
      simp only [isStrictFraction, Bool.and_eq_true, beq_iff_eq, Bool.not_eq_true',
        List.isEmpty_eq_false_iff] at h
      obtain ⟨⟨rfl, hne⟩, hstrict⟩ := h
      obtain ⟨exponent, hexponent, htext⟩ := isStrictExponent_iff.1 hstrict
      refine ⟨some (scanDigits rest).1, exponent, fun ds hds => ?_, fun e he => ?_, ?_⟩
      · obtain rfl := Option.some.inj hds
        exact ⟨isRun_scanDigits rest, hne⟩
      · exact ⟨(hexponent e he).1, (hexponent e he).2, nofun⟩
      · rw [htext, fractionText, List.cons_append, scanDigits_append]
  · rintro ⟨fraction, exponent, hfraction, hexponent, rfl⟩
    cases fraction with
    | none =>
      cases exponent with
      | none => rfl
      | some e => exact absurd rfl (hexponent e rfl).2.2
    | some ds =>
      obtain ⟨hds, hne⟩ := hfraction ds rfl
      have hstrict : isStrictExponent (exponentText exponent) = true :=
        isStrictExponent_iff.2 ⟨exponent, fun e he =>
          ⟨(hexponent e he).1, (hexponent e he).2.1⟩, rfl⟩
      have hends := startsOutside_exponentText fun e he => (hexponent e he).1
      simp [fractionText, isStrictFraction, scanDigits_run hds hends, hne, hstrict]

/-- **The strict pattern is that of the literals.** -/
theorem isStrict_iff_isLiteral :
    isStrict t = true ↔ ∃ n : Numeral, n.IsWellFormed ∧ n.IsLiteral ∧ n.text = t := by
  constructor
  · intro h
    simp only [isStrict, Bool.and_eq_true, Bool.not_eq_true', List.isEmpty_eq_false_iff] at h
    obtain ⟨hne, hstrict⟩ := h
    obtain ⟨fraction, exponent, hfraction, hexponent, htext⟩ := isStrictFraction_iff.1 hstrict
    have hdigits : IsRun Char.isDigit (fraction.getD []) := by
      cases fraction with
      | none => exact isRun_nil
      | some ds => exact (hfraction ds rfl).1
    refine ⟨⟨[], (scanDigits t).1, fraction, exponent⟩,
      ⟨.inl rfl, isRun_scanDigits t, hdigits, .inl hne, fun e he => (hexponent e he).1⟩,
      ⟨rfl, hne, ?_, fun e he => (hexponent e he).2⟩, ?_⟩
    · rintro rfl
      exact (hfraction [] rfl).2 rfl
    · unfold text
      rw [List.nil_append, List.append_assoc, htext, scanDigits_append]
  · rintro ⟨n, hn, hliteral, rfl⟩
    have hstrict : isStrictFraction (fractionText n.fraction ++ exponentText n.exponent) = true := by
      refine isStrictFraction_iff.2 ⟨n.fraction, n.exponent, fun ds hds => ?_, fun e he => ?_, rfl⟩
      · refine ⟨hn.isRun_fraction hds, ?_⟩
        rintro rfl
        exact hliteral.fraction hds
      · exact ⟨hn.exponent e he, hliteral.exponent e he⟩
    have hends : StartsOutside Char.isDigit (fractionText n.fraction ++ exponentText n.exponent) :=
      fractionText_startsOutside (by decide) (startsOutside_exponentText hn.exponent)
    unfold isStrict text
    rw [hliteral.sign, List.nil_append, List.append_assoc, scanDigits_run hn.whole hends]
    simp [hliteral.whole, hstrict]

/-- The texts of the pattern are the numerals with the text of a literal. -/
theorem isStrict_iff : isStrict t = true ↔ IsNumeral t ∧ IsLiteralText t := by
  rw [isStrict_iff_isLiteral]
  constructor
  · rintro ⟨n, hn, hliteral, rfl⟩
    exact ⟨⟨n, hn, rfl⟩, (isLiteral_iff hn).1 hliteral⟩
  · rintro ⟨⟨n, hn, rfl⟩, htext⟩
    exact ⟨n, hn, (isLiteral_iff hn).2 htext, rfl⟩

/-! ### Strict reading -/

/-- **Strict reading is reading**, with the same outcome, of what has the strict pattern. -/
theorem parseStrict_of_isStrict (h : isStrict t = true) : parseStrict t = parse t := by
  obtain ⟨n, hn, -, rfl⟩ := isStrict_iff_isLiteral.1 h
  unfold parseStrict
  rw [if_pos h, scan_of_isWellFormed hn, parse_of_isWellFormed hn]

theorem parseStrict_of_not_isStrict (h : isStrict t = false) :
    parseStrict t = .error ⟨.strictNumeral, t, 0⟩ := by
  unfold parseStrict
  rw [h]
  rfl

/-- What is read as a numeral is one. -/
theorem isNumeral_of_parse (h : parse t = .ok x) : IsNumeral t := by
  obtain ⟨n, hn, htext, -⟩ := parse_eq_ok_iff.1 h
  exact ⟨n, hn, htext⟩

/-- **The strict grammar is exactly a restriction of the other one.** A text is read as a strict
literal if it is read as a numeral, with the same value, and has no sign anywhere, begins with a
digit, has a digit behind its point if it has a point, and has an exponent only if it has a point.
Any other text is refused as a malformed number: a numeral of this form as it is refused otherwise,
for its value, and all else for its form. -/
theorem parseStrict_ok_iff_isLiteralText (t : Text) :
    (∀ x, parseStrict t = .ok x ↔ parse t = .ok x ∧ IsLiteralText t) ∧
    (∀ error, parseStrict t = .error error ↔
      (IsNumeral t ∧ IsLiteralText t) ∧ parse t = .error error ∨
        ¬(IsNumeral t ∧ IsLiteralText t) ∧ error = ⟨.strictNumeral, t, 0⟩) ∧
    ∀ error, parseStrict t = .error error →
      error.fault.kind = .malformedNumeral ∧ error.text = t ∧ error.position = 0 := by
  cases hstrict : isStrict t with
  | true =>
    have hform : IsNumeral t ∧ IsLiteralText t := isStrict_iff.1 hstrict
    rw [parseStrict_of_isStrict hstrict]
    refine ⟨fun x => (and_iff_left hform.2).symm, fun error => ?_,
      fun error => kind_of_parse_error⟩
    rw [and_iff_right hform, or_iff_left fun h => h.1 hform]
  | false =>
    have hform : ¬(IsNumeral t ∧ IsLiteralText t) := fun h => by
      rw [isStrict_iff.2 h] at hstrict
      exact Bool.noConfusion hstrict
    rw [parseStrict_of_not_isStrict hstrict]
    refine ⟨fun x => iff_of_false nofun fun h => hform ⟨isNumeral_of_parse h.1, h.2⟩,
      fun error => ?_, fun error herror => ?_⟩
    · rw [and_iff_right hform, or_iff_right fun h => hform h.1, Except.error.injEq, eq_comm]
    · obtain rfl := Except.error.inj herror
      exact ⟨rfl, rfl, rfl⟩

-- a literal out of range, and a numeral of another form
example : parseStrict "1.5e400".toList = .error ⟨.overflow, "1.5e400".toList, 0⟩ := by
  decide +kernel
example : parseStrict "1e3".toList = .error ⟨.strictNumeral, "1e3".toList, 0⟩ := by decide

end EquationSheet.Numeral
