import EquationSheet.Proofs.Grammar
import EquationSheet.Proofs.Rendering

/-!
# Writing an equation and reading it again

An equation is written without blanks, its magnitude glued to its unit. What is read from that text
is the equation with the written magnitude in the same unit, so a value comes back as far as
converting it out of its SI unit and into it again gives it back, and no bit is lost in the text.

* `shape_format`: with a finite magnitude the text has the shape of its name, number and unit.
* `exists_fault_read`: what is written for a magnitude that is not finite is no numeral.
* `parse_format`: **reading what was written is converting out and in again**, with the same
  equation or the same kind of refusal.
-/

namespace EquationSheet

open Text

namespace Binary64

variable {x y : Binary64}

/-- No product with a number that is not finite is finite. -/
theorem isFinite_mul (hx : x.isFinite = false) : (x * y).isFinite = false := by
  change (mul x y).isFinite = false
  cases x with
  | finite s u hu => simp [isFinite] at hx
  | infinite s =>
    cases y with
    | finite t v hv =>
      simp only [mul]
      split <;> rfl
    | infinite t => rfl
    | nan => rfl
  | nan => cases y <;> rfl

/-- Nor is a quotient of one. -/
theorem isFinite_div (hx : x.isFinite = false) : (x / y).isFinite = false := by
  change (div x y).isFinite = false
  cases x with
  | finite s u hu => simp [isFinite] at hx
  | infinite s => cases y <;> rfl
  | nan => cases y <;> rfl

theorem isFinite_of_div (h : (x / y).isFinite = true) : x.isFinite = true := by
  by_contra hx
  rw [isFinite_div (by simpa using hx)] at h
  exact absurd h (by decide)

/-- **What is written for a number that is not finite is no numeral**, whatever stands behind it. -/
theorem exists_fault_read (hx : x.isFinite = false) (rest : Text) :
    ∃ fault : ParseFault, Numeral.read (x.toCompactText ++ rest) = .error fault ∧
      fault.kind = .malformedNumeral := by
  cases x with
  | finite s u hu => simp [isFinite] at hx
  | infinite s =>
    cases s with
    | false => exact ⟨.number, rfl, rfl⟩
    | true => exact ⟨.mantissa, rfl, rfl⟩
  | nan => exact ⟨.number, rfl, rfl⟩

/-- No text of a number begins with a blank. -/
theorem startsOutside_toCompactText (x : Binary64) (rest : Text) :
    StartsOutside isBlank (x.toCompactText ++ rest) := by
  cases x with
  | finite s u hu =>
    have hfinite : (finite s u hu).isFinite = true := rfl
    obtain ⟨n, hn, htext, -⟩ := exists_numeral_toCompactText hfinite
    rw [← htext]
    exact Equation.startsOutside_isBlank_numeral hn
  | infinite s => cases s <;> simp [toCompactText, textWith, isBlank]
  | nan => simp [toCompactText, textWith, isBlank]

end Binary64

namespace Measure

/-- A magnitude that is not finite is not finite in SI units either. -/
theorem isFinite_toSI {x : Binary64} (hx : x.isFinite = false) (u : Measure) :
    (u.toSI x).isFinite = false := by
  unfold toSI
  split
  · exact Binary64.isFinite_div (Binary64.isFinite_mul hx)
  · exact Binary64.isFinite_mul hx

theorem isFinite_of_toSI {x : Binary64} {u : Measure} (h : (u.toSI x).isFinite = true) :
    x.isFinite = true := by
  by_contra hx
  rw [isFinite_toSI (by simpa using hx) u] at h
  exact absurd h (by decide)

end Measure

namespace Equation

variable {e : Equation}

theorem isSymbol_symbol (u : Measure) : IsSymbol u.symbol := by
  cases u <;> simp [IsSymbol, Measure.symbol]

theorem format_eq (e : Equation) : e.format =
    '"' :: (e.name ++ '"' :: '=' :: (e.magnitude.toCompactText ++ e.unit.symbol)) := by
  simp [format]

/-- **What is written with a finite magnitude has the shape** of its name, number and unit. -/
theorem shape_format (hname : IsName e.name) (hfinite : e.magnitude.isFinite = true) :
    ∃ s : Shape, s.text = e.format ∧ s.name = e.name ∧ s.symbol = e.unit.symbol ∧
      s.numeral.value = .ok e.magnitude := by
  obtain ⟨n, hn, htext, hvalue⟩ := Binary64.exists_numeral_toCompactText hfinite
  refine ⟨⟨[], e.name, [], [], n, [], e.unit.symbol, [], hname, hn, isSymbol_symbol e.unit,
    by simp⟩, ?_, rfl, rfl, hvalue⟩
  simp [Shape.text, Shape.right, format_eq, htext]

/-- Where no numeral stands behind the equals sign, the equation is refused there. -/
theorem parse_of_read_error {name rest : Text} {fault : ParseFault} (hname : IsName name)
    (hblank : StartsOutside isBlank rest) (hread : Numeral.read rest = .error fault) :
    parse ('"' :: (name ++ '"' :: '=' :: rest)) =
      .error (.parse ⟨fault, '"' :: (name ++ '"' :: '=' :: rest), name.length + 3⟩) := by
  have hquote : skipBlanks ('"' :: (name ++ '"' :: '=' :: rest)) =
      '"' :: (name ++ '"' :: '=' :: rest) := dropWhile_of_startsOutside (by simp [isBlank])
  have hequals : skipBlanks ('=' :: rest) = '=' :: rest :=
    dropWhile_of_startsOutside (by simp [isBlank])
  have hrest : skipBlanks rest = rest := dropWhile_of_startsOutside hblank
  have hmagnitude : scanMagnitude rest = .error (fault, rest) := by
    unfold scanMagnitude
    rw [hread]
    rfl
  have hscan : scan ('"' :: (name ++ '"' :: '=' :: rest)) = .error (fault, rest) := by
    unfold scan
    simp only [bind, Except.bind, hquote, expect_cons]
    rw [scanName_append hname (by simp)]
    simp only [expect_cons, hequals, hrest, hmagnitude]
  have hlength : ('"' :: (name ++ '"' :: '=' :: rest)).length - rest.length = name.length + 3 := by
    simp
    omega
  unfold parse
  rw [hscan]
  simp only [hlength]
  rfl

/-- A magnitude with an infinite value in SI units makes no equation. -/
theorem ofDisplay_of_not_finite (name : Text) {x : Binary64} {u : Measure}
    (h : (u.toSI x).isFinite = false) :
    ofDisplay name x u = .error (.parse ⟨.infiniteValue name, [], 0⟩) := by
  unfold ofDisplay ofSI
  rw [dif_neg (by simp [h])]
  rfl

theorem ofDisplay_of_finite (name : Text) {x : Binary64} {u : Measure}
    (h : (u.toSI x).isFinite = true) : ofDisplay name x u = .ok ⟨name, u.toSI x, u, h⟩ := by
  unfold ofDisplay ofSI
  rw [dif_pos h]

/-- With a finite magnitude, what is read is the equation with that magnitude. -/
theorem parse_format_of_finite (hname : IsName e.name) (hfinite : e.magnitude.isFinite = true) :
    parse e.format = ofDisplay e.name e.magnitude e.unit := by
  obtain ⟨s, htext, hs, hsymbol, hvalue⟩ := shape_format hname hfinite
  rw [← htext, parse_shape s hvalue, hs, hsymbol]
  simp only [ofTokens, Measure.resolve, Measure.ofSymbol?_symbol]
  rfl

/-- **Reading what was written is converting out of SI units and in again.** Every equation whose
name can be read comes back with its name and its unit, and with the value in SI units that its
magnitude has, bit for bit, exactly as it is built from that magnitude. Where that value is not
finite, both reading and building refuse a malformed number. -/
theorem parse_format (e : Equation) (hname : IsName e.name) :
    ((e.unit.toSI e.magnitude).isFinite = true ∧
      ∃ e' : Equation, parse e.format = .ok e' ∧ ofDisplay e.name e.magnitude e.unit = .ok e' ∧
        e'.name = e.name ∧ e'.unit = e.unit ∧ e'.value = e.unit.toSI e.magnitude) ∨
    ((e.unit.toSI e.magnitude).isFinite = false ∧
      ∃ read built : ParseError, parse e.format = .error (.parse read) ∧
        ofDisplay e.name e.magnitude e.unit = .error (.parse built) ∧
        read.fault.kind = .malformedNumeral ∧ built.fault.kind = .malformedNumeral) := by
  cases hvalue : (e.unit.toSI e.magnitude).isFinite with
  | true =>
    have hfinite : e.magnitude.isFinite = true := by
      by_contra hinfinite
      have hno := Measure.isFinite_toSI (by simpa using hinfinite) e.unit
      rw [hvalue] at hno
      exact absurd hno (by decide)
    have hbuilt := ofDisplay_of_finite e.name hvalue
    exact .inl ⟨rfl, _, (parse_format_of_finite hname hfinite).trans hbuilt, hbuilt, rfl, rfl, rfl⟩
  | false =>
    have hbuilt := ofDisplay_of_not_finite e.name hvalue
    refine .inr ⟨rfl, ?_⟩
    cases hfinite : e.magnitude.isFinite with
    | true =>
      -- the number is read, and its value overflows
      exact ⟨_, _, (parse_format_of_finite hname hfinite).trans hbuilt, hbuilt, rfl, rfl⟩
    | false =>
      -- there is no number to be read
      obtain ⟨fault, hread, hkind⟩ := Binary64.exists_fault_read hfinite e.unit.symbol
      have hblank := Binary64.startsOutside_toCompactText e.magnitude e.unit.symbol
      have hrefused := parse_of_read_error hname hblank hread
      rw [← format_eq] at hrefused
      exact ⟨_, _, hrefused, hbuilt, hkind, rfl⟩

/-- A width of negative zero comes back with its sign. A length that has no finite number of
nanometres is refused. -/
theorem parse_format_extremes :
    (∃ e, parse (Equation.format ⟨['w'], .zero true, .millimetre, rfl⟩) = .ok e ∧
      e.value = .zero true) ∧
    ∃ error, parse (Equation.format ⟨['l'], Measure.constant 1 308, .nanometre, by decide +kernel⟩) =
        .error (.parse error) ∧ error.fault.kind = .malformedNumeral := by
  constructor
  · have hvalue : Measure.toSI .millimetre (Measure.fromSI .millimetre (.zero true)) = .zero true := by
      decide +kernel
    rcases parse_format ⟨['w'], .zero true, .millimetre, rfl⟩ (by simp [IsName]) with
      ⟨-, e, hread, -, -, -, he⟩ | ⟨hinfinite, -⟩
    · exact ⟨e, hread, he.trans hvalue⟩
    · exact absurd hinfinite (by decide +kernel)
  · rcases parse_format ⟨['l'], Measure.constant 1 308, .nanometre, by decide +kernel⟩
      (by simp [IsName]) with ⟨hfinite, -⟩ | ⟨-, error, -, hread, -, hkind, -⟩
    · exact absurd hfinite (by decide +kernel)
    · exact ⟨error, hread, hkind⟩

end Equation

end EquationSheet
