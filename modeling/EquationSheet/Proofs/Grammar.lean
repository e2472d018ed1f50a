import EquationSheet.Equation
import EquationSheet.Proofs.Numerals

/-!
# The grammar of equations

An equation is written `ws '"' name '"' ws '=' ws numeral ws unit ws`, with
`name := letter (letter | digit)*`, `unit := letter+` and `ws := (space | tab)*`; letters and
digits are ASCII. The scanner reads left to right and never looks back.

* `scan_shape`: a text of the shape is scanned into its name, its number and its unit.
* `exists_shape_of_scan`: what is scanned has the shape.
* `Shape.unique`: a text has the shape in one way only, up to its blanks.
* `parse_ok_iff_shape`: **the texts that are read are those of the shape** whose number is finite
  and whose unit is known, with a finite value in SI units; all others are refused.
-/

namespace EquationSheet

open Text

theorem bind_eq_ok {ε α β : Type} {x : Except ε α} {f : α → Except ε β} {b : β} :
    (x >>= f) = .ok b ↔ ∃ a, x = .ok a ∧ f a = .ok b := by
  cases x <;> simp [bind, Except.bind]

namespace Equation

/-- A letter followed by letters and digits. -/
def IsName : Text → Prop
  | [] => False
  | c :: rest => c.isAlpha = true ∧ IsRun Char.isAlphanum rest

/-- At least one letter. -/
def IsSymbol (t : Text) : Prop := t ≠ [] ∧ IsRun Char.isAlpha t

/-- **The shape of an equation**, with its blanks. -/
structure Shape where
  lead : Text
  name : Text
  beforeEquals : Text
  beforeNumeral : Text
  numeral : Numeral
  beforeUnit : Text
  symbol : Text
  trail : Text
  isName : IsName name
  isNumeral : numeral.IsWellFormed
  isSymbol : IsSymbol symbol
  blanks : ∀ ws ∈ [lead, beforeEquals, beforeNumeral, beforeUnit, trail], IsRun isBlank ws

namespace Shape

/-- What stands behind the equals sign and its blanks. -/
def right (s : Shape) : Text := s.numeral.text ++ (s.beforeUnit ++ (s.symbol ++ s.trail))

/-- The text of a shape. -/
def text (s : Shape) : Text :=
  s.lead ++ '"' :: (s.name ++ '"' :: (s.beforeEquals ++ '=' :: (s.beforeNumeral ++ s.right)))

/-- The number is finite, the unit is known, and so is the value in its SI unit. -/
def IsAcceptable (s : Shape) : Prop :=
  s.numeral.nearest.isFinite = true ∧
    ∃ u, Measure.ofSymbol? s.symbol = some u ∧ (u.toSI s.numeral.nearest).isFinite = true

/-- The equation has the name and the unit of the shape, and its number as value in SI units. -/
structure Denotes (s : Shape) (e : Equation) : Prop where
  name : e.name = s.name
  unit : Measure.ofSymbol? s.symbol = some e.unit
  value : e.value = e.unit.toSI s.numeral.nearest

end Shape

/-! ### The pieces of a shape -/

variable {t rest : Text} {c : Char}

theorem isBlank_of_isAlpha (h : c.isAlpha = true) : isBlank c = false := by
  have hbounds := toNat_of_isAlpha h
  exact isBlank_of_bounds (by omega)

theorem skipBlanks_run {ws : Text} (hw : IsRun isBlank ws) (ht : StartsOutside isBlank t) :
    skipBlanks (ws ++ t) = t := dropWhile_run hw ht

theorem IsName.ne_nil (h : IsName t) : t ≠ [] := by
  rintro rfl
  exact h

theorem IsName.isRun (h : IsName t) : IsRun Char.isAlphanum t := by
  cases t with
  | nil => exact h.elim
  | cons c t => exact isRun_cons.2 ⟨by simp [Char.isAlphanum, h.1], h.2⟩

/-- A numeral does not begin with a blank. -/
theorem startsOutside_isBlank_numeral {n : Numeral} (hn : n.IsWellFormed) :
    StartsOutside isBlank (n.text ++ rest) := by
  apply Numeral.startsOutside_text hn
  intro c hc
  have hbounds := Numeral.bounds_of_isNumeralChar hc
  exact isBlank_of_bounds (by omega)

namespace Shape

variable (s : Shape)

theorem blank_lead : IsRun isBlank s.lead := s.blanks _ (by simp)

theorem blank_beforeEquals : IsRun isBlank s.beforeEquals := s.blanks _ (by simp)

theorem blank_beforeNumeral : IsRun isBlank s.beforeNumeral := s.blanks _ (by simp)

theorem blank_beforeUnit : IsRun isBlank s.beforeUnit := s.blanks _ (by simp)

theorem blank_trail : IsRun isBlank s.trail := s.blanks _ (by simp)

theorem startsOutside_symbol : StartsOutside isBlank (s.symbol ++ s.trail) :=
  (startsOutside_append_left s.isSymbol.1).2 (s.isSymbol.2.startsOutside fun _ => isBlank_of_isAlpha)

/-- No numeral extends into the unit behind it. -/
theorem stops_unit : Numeral.Stops (s.beforeUnit ++ (s.symbol ++ s.trail)) := by
  have hblank : ∀ c : Char, isBlank c = true → Numeral.isLetterOrBlank c = true := by
    intro c hc; simp [Numeral.isLetterOrBlank, hc]
  apply Numeral.stops_of_isRun
  simp only [isRun_append]
  refine ⟨s.blank_beforeUnit.imp hblank, s.isSymbol.2.imp fun c hc => ?_, s.blank_trail.imp hblank⟩
  simp [Numeral.isLetterOrBlank, hc]

end Shape

/-! ### Scanning a shape -/

theorem expect_cons (c : Char) (fault : ParseFault) (t : Text) : expect c fault (c :: t) = .ok t := by
  simp [expect]

theorem scanName_append (hname : IsName t) (hr : StartsOutside Char.isAlphanum rest) :
    scanName (t ++ rest) = .ok (t, rest) := by
  cases t with
  | nil => exact hname.elim
  | cons c t =>
    obtain ⟨hc, ht⟩ := hname
    simp only [List.cons_append, scanName]
    rw [if_pos hc, takeWhile_run ht hr, dropWhile_run ht hr]

theorem scanSymbol_append (hs : IsSymbol t) (hr : StartsOutside Char.isAlpha rest) :
    scanSymbol (t ++ rest) = .ok (t, rest) := by
  unfold scanSymbol
  rw [takeWhile_run hs.2 hr, dropWhile_run hs.2 hr]
  cases t with
  | nil => exact absurd rfl hs.1
  | cons c t => rfl

theorem startsOutside_isAlpha_of_blank (h : IsRun isBlank t) : StartsOutside Char.isAlpha t :=
  h.startsOutside fun c hc => by rcases isBlank_cases hc with rfl | rfl <;> decide

/-- **A text of the shape is scanned into its tokens** if its number is finite. -/
theorem scan_shape (s : Shape) {x : Binary64} (hx : s.numeral.value = .ok x) :
    scan s.text = .ok ⟨s.name, x, s.symbol⟩ := by
  have hread : scanMagnitude s.right = .ok (x, s.beforeUnit ++ (s.symbol ++ s.trail)) := by
    unfold scanMagnitude Shape.right
    rw [Numeral.read_append s.isNumeral s.stops_unit, hx]
    rfl
  have hnumeral : StartsOutside isBlank s.right := startsOutside_isBlank_numeral s.isNumeral
  have hquote : StartsOutside isBlank ('"' :: (s.name ++ '"' ::
      (s.beforeEquals ++ '=' :: (s.beforeNumeral ++ s.right)))) := by simp [isBlank]
  have hequals : StartsOutside isBlank ('=' :: (s.beforeNumeral ++ s.right)) := by simp [isBlank]
  -- behind each run of blanks stands something that begins with none
  unfold scan Shape.text
  rw [skipBlanks_run s.blank_lead hquote, expect_cons]
  simp only [bind, Except.bind]
  rw [scanName_append s.isName (by simp)]
  simp only [expect_cons]
  rw [skipBlanks_run s.blank_beforeEquals hequals, expect_cons]
  simp only
  rw [skipBlanks_run s.blank_beforeNumeral hnumeral, hread]
  simp only
  rw [skipBlanks_run s.blank_beforeUnit s.startsOutside_symbol,
    scanSymbol_append s.isSymbol (startsOutside_isAlpha_of_blank s.blank_trail)]
  simp only
  have htrail : s.trail.skipBlanks = [] := by
    simpa using skipBlanks_run s.blank_trail (t := []) startsOutside_nil
  rw [htrail]
  rfl

/-! ### What is scanned has the shape -/

theorem eq_cons_of_expect {fault : ParseFault} (h : expect c fault t = .ok rest) : t = c :: rest := by
  cases t with
  | nil => simp [expect] at h
  | cons d t =>
    simp only [expect] at h
    split at h
    · rename_i hd
      simp only [Except.ok.injEq] at h
      rw [hd, h]
    · simp at h

theorem append_of_scanName {name : Text} (h : scanName t = .ok (name, rest)) :
    t = name ++ rest ∧ IsName name := by
  cases t with
  | nil => simp [scanName] at h
  | cons c t =>
    simp only [scanName] at h
    split at h
    · rename_i hc
      simp only [Except.ok.injEq, Prod.mk.injEq] at h
      obtain ⟨rfl, rfl⟩ := h
      exact ⟨by simp, hc, isRun_takeWhile⟩
    · simp at h

theorem append_of_scanSymbol {symbol : Text} (h : scanSymbol t = .ok (symbol, rest)) :
    t = symbol ++ rest ∧ IsSymbol symbol := by
  unfold scanSymbol at h
  split at h
  · simp at h
  · rename_i hne
    simp only [Except.ok.injEq, Prod.mk.injEq] at h
    obtain ⟨rfl, rfl⟩ := h
    exact ⟨List.takeWhile_append_dropWhile.symm, hne, isRun_takeWhile⟩

theorem exists_blanks (t : Text) : ∃ ws, t = ws ++ t.skipBlanks ∧ IsRun isBlank ws :=
  ⟨t.takeWhile isBlank, List.takeWhile_append_dropWhile.symm, isRun_takeWhile⟩

/-- **What is scanned has the shape** of its tokens. -/
theorem exists_shape_of_scan {tokens : Tokens} (h : scan t = .ok tokens) :
    ∃ s : Shape, s.text = t ∧ s.numeral.value = .ok tokens.magnitude ∧
      s.name = tokens.name ∧ s.symbol = tokens.symbol := by
  simp only [scan, bind_eq_ok] at h
  obtain ⟨t₁, hquote, ⟨name, t₂⟩, hname, t₃, hquote', t₄, hequals, ⟨x, t₅⟩, hread, ⟨symbol, t₆⟩,
    hsymbol, ⟨⟩, hend, htokens⟩ := h
  simp only at hquote' hsymbol hend
  obtain ⟨lead, hlead, blank_lead⟩ := exists_blanks t
  obtain ⟨beforeEquals, hbeforeEquals, blank_beforeEquals⟩ := exists_blanks t₃
  obtain ⟨beforeNumeral, hbeforeNumeral, blank_beforeNumeral⟩ := exists_blanks t₄
  obtain ⟨beforeUnit, hbeforeUnit, blank_beforeUnit⟩ := exists_blanks t₅
  obtain ⟨trail, htrail, blank_trail⟩ := exists_blanks t₆
  obtain ⟨ht₁, isName⟩ := append_of_scanName hname
  obtain ⟨ht₅, isSymbol⟩ := append_of_scanSymbol hsymbol
  have hnil : t₆.skipBlanks = [] := by
    cases hskip : t₆.skipBlanks with
    | nil => rfl
    | cons c r => rw [hskip] at hend; simp [expectEnd] at hend
  obtain ⟨n, isNumeral, -, ht₄, hnearest, hfinite⟩ : ∃ n : Numeral, n.IsWellFormed ∧
      Numeral.scan t₄.skipBlanks = (n, t₅) ∧ t₄.skipBlanks = n.text ++ t₅ ∧ n.nearest = x ∧
      x.isFinite = true := by
    apply Numeral.exists_of_read
    unfold scanMagnitude at hread
    cases hr : Numeral.read t₄.skipBlanks with
    | error f => rw [hr] at hread; simp [Except.mapError] at hread
    | ok r => rw [hr] at hread; simpa [Except.mapError] using hread
  simp only [pure, Except.pure, Except.ok.injEq] at htokens
  subst htokens
  refine ⟨⟨lead, name, beforeEquals, beforeNumeral, n, beforeUnit, symbol, trail, isName, isNumeral,
    isSymbol, ?_⟩, ?_, Numeral.value_eq_ok_iff.2 ⟨isNumeral.mantissa_ne, hnearest, hfinite⟩, rfl,
    rfl⟩
  · simp [blank_lead, blank_beforeEquals, blank_beforeNumeral, blank_beforeUnit, blank_trail]
  · -- the pieces are put together again from right to left
    rw [hnil, List.append_nil] at htrail
    rw [ht₅, htrail] at hbeforeUnit
    rw [ht₄, hbeforeUnit] at hbeforeNumeral
    rw [eq_cons_of_expect hequals, hbeforeNumeral] at hbeforeEquals
    rw [eq_cons_of_expect hquote', hbeforeEquals] at ht₁
    rw [eq_cons_of_expect hquote, ht₁] at hlead
    exact hlead.symm

/-! ### Only one way to have the shape -/

/-- **A text has the shape in one way only**, up to its blanks. -/
theorem Shape.unique {s s' : Shape} (h : s.text = s'.text) :
    s.name = s'.name ∧ s.numeral = s'.numeral ∧ s.symbol = s'.symbol := by
  have hquote : ∀ r : Text, StartsOutside isBlank ('"' :: r) := fun r => by simp [isBlank]
  have hequals : ∀ r : Text, StartsOutside isBlank ('=' :: r) := fun r => by simp [isBlank]
  have hname : ∀ r : Text, StartsOutside Char.isAlphanum ('"' :: r) := fun r => by simp
  unfold Shape.text at h
  -- the same text is cut twice, one piece after the other
  have h₁ := congrArg skipBlanks h
  rw [skipBlanks_run s.blank_lead (hquote _), skipBlanks_run s'.blank_lead (hquote _),
    List.cons.injEq] at h₁
  have hn := congrArg (List.takeWhile Char.isAlphanum) h₁.2
  have h₂ := congrArg (List.dropWhile Char.isAlphanum) h₁.2
  rw [takeWhile_run s.isName.isRun (hname _), takeWhile_run s'.isName.isRun (hname _)] at hn
  rw [dropWhile_run s.isName.isRun (hname _), dropWhile_run s'.isName.isRun (hname _),
    List.cons.injEq] at h₂
  have h₃ := congrArg skipBlanks h₂.2
  rw [skipBlanks_run s.blank_beforeEquals (hequals _),
    skipBlanks_run s'.blank_beforeEquals (hequals _), List.cons.injEq] at h₃
  have hnumeral : StartsOutside isBlank s.right := startsOutside_isBlank_numeral s.isNumeral
  have hnumeral' : StartsOutside isBlank s'.right := startsOutside_isBlank_numeral s'.isNumeral
  have h₄ := congrArg skipBlanks h₃.2
  rw [skipBlanks_run s.blank_beforeNumeral hnumeral,
    skipBlanks_run s'.blank_beforeNumeral hnumeral'] at h₄
  have h₅ := congrArg Numeral.scan h₄
  unfold Shape.right at h₅
  rw [Numeral.scan_append s.isNumeral s.stops_unit, Numeral.scan_append s'.isNumeral s'.stops_unit,
    Prod.mk.injEq] at h₅
  have h₆ := congrArg (fun t => (skipBlanks t).takeWhile Char.isAlpha) h₅.2
  rw [skipBlanks_run s.blank_beforeUnit s.startsOutside_symbol,
    skipBlanks_run s'.blank_beforeUnit s'.startsOutside_symbol,
    takeWhile_run s.isSymbol.2 (startsOutside_isAlpha_of_blank s.blank_trail),
    takeWhile_run s'.isSymbol.2 (startsOutside_isAlpha_of_blank s'.blank_trail)] at h₆
  exact ⟨hn, h₅.1, h₆⟩

/-! ### Reading an equation -/

/-- Tokens are an equation when their unit is known and their value in SI units is finite. -/
theorem ofTokens_eq_ok_iff {tokens : Tokens} {e : Equation} :
    ofTokens tokens = .ok e ↔ e.name = tokens.name ∧
      Measure.ofSymbol? tokens.symbol = some e.unit ∧ e.value = e.unit.toSI tokens.magnitude := by
  simp only [ofTokens, bind_eq_ok, Measure.resolve, ofDisplay, ofSI]
  cases hu : Measure.ofSymbol? tokens.symbol with
  | none => simp
  | some u =>
    simp only [Except.ok.injEq, exists_eq_left', Option.some.injEq]
    -- the value of an equation is finite by construction, so the test cannot fail on it
    constructor
    · intro h
      split at h
      · simp only [Except.ok.injEq] at h
        subst h
        exact ⟨rfl, rfl, rfl⟩
      · simp at h
    · rintro ⟨hname, rfl, hvalue⟩
      obtain ⟨name, value, unit, hfinite⟩ := e
      simp only at hname hvalue
      subst hname hvalue
      rw [dif_pos hfinite]

theorem parse_of_scan {tokens : Tokens} (h : scan t = .ok tokens) : parse t = ofTokens tokens := by
  unfold parse
  rw [h]

/-- A text of the shape with a finite number is read as its tokens. -/
theorem parse_shape (s : Shape) {x : Binary64} (hx : s.numeral.value = .ok x) :
    parse s.text = ofTokens ⟨s.name, x, s.symbol⟩ := parse_of_scan (scan_shape s hx)

/-- **What is read has the shape** and denotes the equation. -/
theorem exists_shape_of_parse {e : Equation} (h : parse t = .ok e) :
    ∃ s : Shape, s.text = t ∧ s.numeral.value = .ok s.numeral.nearest ∧ s.Denotes e := by
  unfold parse at h
  cases hscan : scan t with
  | error f => rw [hscan] at h; simp at h
  | ok tokens =>
    rw [hscan] at h
    obtain ⟨s, hs, hvalue, hname, hsymbol⟩ := exists_shape_of_scan hscan
    obtain ⟨hn, hu, hv⟩ := ofTokens_eq_ok_iff.1 h
    obtain ⟨-, hnearest, -⟩ := Numeral.value_eq_ok_iff.1 hvalue
    rw [← hnearest] at hvalue hv
    exact ⟨s, hs, hvalue, hn.trans hname.symm, hsymbol ▸ hu, hv⟩

theorem isAcceptable_of_denotes {s : Shape} {e : Equation}
    (hvalue : s.numeral.value = .ok s.numeral.nearest) (h : s.Denotes e) : s.IsAcceptable := by
  obtain ⟨-, -, hfinite⟩ := Numeral.value_eq_ok_iff.1 hvalue
  exact ⟨hfinite, e.unit, h.unit, h.value ▸ e.isFinite⟩

/-- An acceptable shape is read as the equation it denotes. -/
theorem exists_of_isAcceptable {s : Shape} (h : s.IsAcceptable) :
    ∃ e, parse s.text = .ok e ∧ s.Denotes e := by
  obtain ⟨hfinite, u, hu, hsi⟩ := h
  refine ⟨⟨s.name, u.toSI s.numeral.nearest, u, hsi⟩, ?_, rfl, hu, rfl⟩
  rw [parse_shape s (s.isNumeral.value_eq hfinite)]
  exact ofTokens_eq_ok_iff.2 ⟨rfl, hu, rfl⟩

/-- **The texts that are read are those of the shape**, with a finite number, a known unit and a
finite value in SI units. A text has the shape in one way only, up to its blanks, and is read as
what that shape denotes. Every other text is refused. -/
theorem parse_ok_iff_shape (t : Text) :
    ((∃ e, parse t = .ok e) ↔ ∃ s : Shape, s.text = t ∧ s.IsAcceptable) ∧
      (∀ s s' : Shape, s.text = t → s'.text = t →
        s.name = s'.name ∧ s.numeral = s'.numeral ∧ s.symbol = s'.symbol) ∧
      (∀ (s : Shape) (e : Equation), s.text = t → parse t = .ok e → s.Denotes e) ∧
      ((¬∃ s : Shape, s.text = t ∧ s.IsAcceptable) →
        ∃ error : EquationError, parse t = .error error) := by
  have hiff : (∃ e, parse t = .ok e) ↔ ∃ s : Shape, s.text = t ∧ s.IsAcceptable := by
    constructor
    · rintro ⟨e, he⟩
      obtain ⟨s, hs, hvalue, hdenotes⟩ := exists_shape_of_parse he
      exact ⟨s, hs, isAcceptable_of_denotes hvalue hdenotes⟩
    · rintro ⟨s, rfl, hs⟩
      obtain ⟨e, he, -⟩ := exists_of_isAcceptable hs
      exact ⟨e, he⟩
  refine ⟨hiff, fun s s' hs hs' => Shape.unique (hs.trans hs'.symm), ?_, ?_⟩
  · intro s e hs he
    obtain ⟨s', hs', -, hname, hunit, hvalue⟩ := exists_shape_of_parse he
    obtain ⟨hn, hm, hu⟩ := Shape.unique (hs.trans hs'.symm)
    exact ⟨hname.trans hn.symm, hu ▸ hunit, hm ▸ hvalue⟩
  · intro hno
    cases hparse : parse t with
    | ok e => exact absurd (hiff.1 ⟨e, hparse⟩) hno
    | error err => exact ⟨err, rfl⟩

end Equation

end EquationSheet
