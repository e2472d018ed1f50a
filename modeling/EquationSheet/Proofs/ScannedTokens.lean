import EquationSheet.Proofs.Grammar
import EquationSheet.Proofs.LongestMatch

/-!
# The tokens of an equation, one by one

An equation is scanned as seven tokens from left to right. Each token either takes a piece of the
text, at its full length and with the blanks behind it, or is missing at the place in front of
which the scanner then stands.

* `expect_eq_ok_iff`, `scanName_eq_ok_iff`, `scanMagnitude_eq_ok_iff`, `scanSymbol_eq_ok_iff` and
  their `error` counterparts: the scanners, in both directions.
* `Token.scan_eq_ok_iff`, `Token.scan_eq_error_iff`: **a token is taken or it is missing.**
* `scan_map_eq_foldlM`: an equation is scanned token by token.
-/

namespace EquationSheet.Equation

open Text

variable {t rest ws : Text} {c : Char} {e : ParseFault × Text}

theorem bind_eq_error {ε α β : Type} {x : Except ε α} {f : α → Except ε β} {err : ε} :
    (x >>= f) = .error err ↔ x = .error err ∨ ∃ a, x = .ok a ∧ f a = .error err := by
  cases x <;> simp [bind, Except.bind]

/-! ### The scanners -/

/-- Blanks are skipped up to the first other code point. -/
theorem skipBlanks_eq_iff : t.skipBlanks = rest ↔
    ∃ ws, IsRun isBlank ws ∧ StartsOutside isBlank rest ∧ t = ws ++ rest := by
  constructor
  · rintro rfl
    obtain ⟨ws, ht, hws⟩ := exists_blanks t
    exact ⟨ws, hws, startsOutside_dropWhile, ht⟩
  · rintro ⟨ws, hws, hrest, rfl⟩
    exact skipBlanks_run hws hrest

theorem expect_eq_ok_iff {fault : ParseFault} : expect c fault t = .ok rest ↔ t = c :: rest := by
  constructor
  · exact eq_cons_of_expect
  · rintro rfl
    exact expect_cons c fault rest

theorem expect_eq_error_iff {fault : ParseFault} :
    expect c fault t = .error e ↔ StartsOutside (· == c) t ∧ e = (fault, t) := by
  cases t with
  | nil => simpa [expect] using eq_comm
  | cons d t =>
    by_cases hd : d = c
    · simp [expect, hd]
    · simpa [expect, hd] using eq_comm

theorem scanName_eq_ok_iff {name : Text} : scanName t = .ok (name, rest) ↔
    IsName name ∧ StartsOutside Char.isAlphanum rest ∧ t = name ++ rest := by
  constructor
  · intro h
    obtain ⟨ht, hname⟩ := append_of_scanName h
    refine ⟨hname, ?_, ht⟩
    cases t with
    | nil => simp [scanName] at h
    | cons c t =>
      simp only [scanName] at h
      split at h
      · obtain ⟨-, rfl⟩ := Prod.mk.inj (Except.ok.inj h)
        exact startsOutside_dropWhile
      · simp at h
  · rintro ⟨hname, hrest, rfl⟩
    exact scanName_append hname hrest

theorem scanName_eq_error_iff :
    scanName t = .error e ↔ StartsOutside Char.isAlpha t ∧ e = (.variableName, t) := by
  cases t with
  | nil => simpa [scanName] using eq_comm
  | cons c t =>
    cases hc : c.isAlpha with
    | false => simpa [scanName, hc] using eq_comm
    | true => simp [scanName, hc]

theorem scanSymbol_eq_ok_iff {symbol : Text} : scanSymbol t = .ok (symbol, rest) ↔
    IsSymbol symbol ∧ StartsOutside Char.isAlpha rest ∧ t = symbol ++ rest := by
  constructor
  · intro h
    obtain ⟨ht, hsymbol⟩ := append_of_scanSymbol h
    refine ⟨hsymbol, ?_, ht⟩
    unfold scanSymbol at h
    split at h
    · simp at h
    · obtain ⟨-, rfl⟩ := Prod.mk.inj (Except.ok.inj h)
      exact startsOutside_dropWhile
  · rintro ⟨hsymbol, hrest, rfl⟩
    exact scanSymbol_append hsymbol hrest

theorem scanSymbol_eq_error_iff :
    scanSymbol t = .error e ↔ StartsOutside Char.isAlpha t ∧ e = (.unit, t) := by
  cases t with
  | nil => simpa [scanSymbol] using eq_comm
  | cons c t =>
    cases hc : c.isAlpha with
    | false => simpa [scanSymbol, hc] using eq_comm
    | true => simp [scanSymbol, hc]

theorem scanMagnitude_eq_ok_iff {x : Binary64} :
    scanMagnitude t = .ok (x, rest) ↔ Numeral.read t = .ok (x, rest) := by
  unfold scanMagnitude
  cases Numeral.read t <;> simp [Except.mapError]

theorem scanMagnitude_eq_error_iff :
    scanMagnitude t = .error e ↔ ∃ fault, Numeral.read t = .error fault ∧ e = (fault, t) := by
  unfold scanMagnitude
  cases Numeral.read t with
  | ok found => simp [Except.mapError]
  | error fault => simpa [Except.mapError] using eq_comm

theorem expectEnd_eq_ok_iff {u : Unit} : expectEnd t = .ok u ↔ t = [] := by
  cases t <;> simp [expectEnd]

theorem expectEnd_eq_error_iff : expectEnd t = .error e ↔ t ≠ [] ∧ e = (.trailingText, t) := by
  cases t with
  | nil => simp [expectEnd]
  | cons c t => simpa [expectEnd] using eq_comm

/-! ### The tokens -/

/-- What an equation consists of, from left to right. -/
inductive Token
  | openingQuote
  | name
  | closingQuote
  | equalsSign
  | numeral
  | unit
  | finish
  deriving DecidableEq

namespace Token

/-- The tokens in their order. -/
def all : List Token := [openingQuote, name, closingQuote, equalsSign, numeral, unit, finish]

/-- The token behind this one. -/
def next : Token → Option Token
  | openingQuote => some name
  | name => some closingQuote
  | closingQuote => some equalsSign
  | equalsSign => some numeral
  | numeral => some unit
  | unit => some finish
  | finish => none

/-- The kind of error that a missing token is. -/
def kind : Token → FaultKind
  | equalsSign => .missingSeparator
  | numeral => .malformedNumeral
  | _ => .unexpectedToken

/-- Blanks that reach up to the rest of the text. -/
def AreBlanks (ws rest : Text) : Prop := IsRun isBlank ws ∧ StartsOutside isBlank rest

/-- **The piece that a token takes**, in front of the rest of the text: the whole name, the longest
numeral, the whole unit, and all the blanks behind them. Nothing is skipped inside the quotes. -/
def Takes : Token → Text → Text → Prop
  | openingQuote, piece, _ => piece = ['"']
  | name, piece, rest => IsName piece ∧ StartsOutside Char.isAlphanum rest
  | closingQuote, piece, rest => ∃ ws, AreBlanks ws rest ∧ piece = '"' :: ws
  | equalsSign, piece, rest => ∃ ws, AreBlanks ws rest ∧ piece = '=' :: ws
  | numeral, piece, rest => ∃ (n : Numeral) (ws : Text), AreBlanks ws rest ∧
      n.IsLongest (n.text ++ (ws ++ rest)) ∧ n.nearest.isFinite = true ∧ piece = n.text ++ ws
  | unit, piece, rest => ∃ symbol ws, AreBlanks ws rest ∧ IsSymbol symbol ∧
      StartsOutside Char.isAlpha (ws ++ rest) ∧ piece = symbol ++ ws
  | finish, piece, rest => piece = [] ∧ rest = []

/-- **The token is missing** at the start of the text. A numeral is missing also where the longest
one is too large. -/
def Misses : Token → Text → Prop
  | openingQuote, t | closingQuote, t => StartsOutside (· == '"') t
  | name, t | unit, t => StartsOutside Char.isAlpha t
  | equalsSign, t => StartsOutside (· == '=') t
  | numeral, t => (∀ n : Numeral, n.IsWellFormed → ¬n.text <+: t) ∨
      ∃ n : Numeral, n.IsLongest t ∧ n.nearest.isFinite = false
  | finish, t => t ≠ []

/-- The text behind a token, or the fault and the text in front of which it stands. -/
def scan : Token → Text → Except (ParseFault × Text) Text
  | openingQuote, t => expect '"' .openingQuote t
  | name, t => do
    let (_, t) ← scanName t
    pure t
  | closingQuote, t => do
    let t ← expect '"' .closingQuote t
    pure t.skipBlanks
  | equalsSign, t => do
    let t ← expect '=' .equalsSign t
    pure t.skipBlanks
  | numeral, t => do
    let (_, t) ← scanMagnitude t
    pure t.skipBlanks
  | unit, t => do
    let (_, t) ← scanSymbol t
    pure t.skipBlanks
  | finish, t => do
    expectEnd t
    pure []

/-- **A token takes its piece of the text.** -/
theorem scan_eq_ok_iff (token : Token) :
    token.scan t = .ok rest ↔ ∃ piece, token.Takes piece rest ∧ t = piece ++ rest := by
  cases token with
  | openingQuote => simp [scan, Takes, expect_eq_ok_iff]
  | name =>
    simp only [scan, Takes, bind_eq_ok, pure, Except.pure, Except.ok.injEq, Prod.exists,
      scanName_eq_ok_iff]
    constructor
    · rintro ⟨name, left, ⟨hname, hleft, rfl⟩, rfl⟩
      exact ⟨name, ⟨hname, hleft⟩, rfl⟩
    · rintro ⟨name, ⟨hname, hrest⟩, rfl⟩
      exact ⟨name, rest, ⟨hname, hrest, rfl⟩, rfl⟩
  | closingQuote | equalsSign =>
    simp only [scan, Takes, bind_eq_ok, pure, Except.pure, Except.ok.injEq, expect_eq_ok_iff,
      skipBlanks_eq_iff]
    constructor
    · rintro ⟨left, rfl, ws, hws, hrest, rfl⟩
      exact ⟨_, ⟨ws, ⟨hws, hrest⟩, rfl⟩, rfl⟩
    · rintro ⟨-, ⟨ws, ⟨hws, hrest⟩, rfl⟩, rfl⟩
      exact ⟨ws ++ rest, rfl, ws, hws, hrest, rfl⟩
  | numeral =>
    simp only [scan, Takes, bind_eq_ok, pure, Except.pure, Except.ok.injEq, Prod.exists,
      scanMagnitude_eq_ok_iff, Numeral.read_eq_ok_iff, Numeral.value_eq_ok_iff, skipBlanks_eq_iff]
    constructor
    · rintro ⟨x, left, ⟨n, hlongest, ⟨-, rfl, hfinite⟩, rfl⟩, ws, hws, hrest, rfl⟩
      exact ⟨_, ⟨n, ws, ⟨hws, hrest⟩, hlongest, hfinite, rfl⟩, by simp⟩
    · rintro ⟨-, ⟨n, ws, ⟨hws, hrest⟩, hlongest, hfinite, rfl⟩, rfl⟩
      rw [List.append_assoc]
      exact ⟨n.nearest, ws ++ rest,
        ⟨n, hlongest, ⟨hlongest.isWellFormed.mantissa_ne, rfl, hfinite⟩, rfl⟩, ws, hws, hrest, rfl⟩
  | unit =>
    simp only [scan, Takes, bind_eq_ok, pure, Except.pure, Except.ok.injEq, Prod.exists,
      scanSymbol_eq_ok_iff, skipBlanks_eq_iff]
    constructor
    · rintro ⟨symbol, left, ⟨hsymbol, hleft, rfl⟩, ws, hws, hrest, rfl⟩
      exact ⟨_, ⟨symbol, ws, ⟨hws, hrest⟩, hsymbol, hleft, rfl⟩, by simp⟩
    · rintro ⟨-, ⟨symbol, ws, ⟨hws, hrest⟩, hsymbol, hleft, rfl⟩, rfl⟩
      rw [List.append_assoc]
      exact ⟨symbol, ws ++ rest, ⟨hsymbol, hleft, rfl⟩, ws, hws, hrest, rfl⟩
  | finish =>
    simp only [scan, Takes, bind_eq_ok, pure, Except.pure, Except.ok.injEq, expectEnd_eq_ok_iff]
    constructor
    · rintro ⟨-, rfl, rfl⟩
      exact ⟨[], ⟨rfl, rfl⟩, rfl⟩
    · rintro ⟨-, ⟨rfl, rfl⟩, rfl⟩
      exact ⟨(), rfl, rfl⟩

/-- **A token is refused where it is missing.** -/
theorem scan_eq_error_iff (token : Token) : (∃ e, token.scan t = .error e) ↔ token.Misses t := by
  cases token with
  | numeral =>
    rw [Misses, ← Numeral.read_eq_error_iff]
    simp only [scan, bind_eq_error, pure, Except.pure, reduceCtorEq, and_false, exists_false,
      or_false, scanMagnitude_eq_error_iff]
    constructor
    · rintro ⟨-, fault, hread, -⟩
      exact ⟨fault, hread⟩
    · rintro ⟨fault, hread⟩
      exact ⟨_, fault, hread, rfl⟩
  | _ =>
    simp [scan, Misses, bind_eq_error, pure, Except.pure, expect_eq_error_iff,
      scanName_eq_error_iff, scanSymbol_eq_error_iff, expectEnd_eq_error_iff]

/-- The error stands in front of the text and is of the kind of the token. -/
theorem of_scan_eq_error {token : Token} (h : token.scan t = .error e) :
    e.2 = t ∧ e.1.kind = token.kind := by
  cases token with
  | numeral =>
    simp only [scan, bind_eq_error, pure, Except.pure, reduceCtorEq, and_false, exists_false,
      or_false, scanMagnitude_eq_error_iff] at h
    obtain ⟨fault, hread, rfl⟩ := h
    exact ⟨rfl, Numeral.kind_of_read_error hread⟩
  | _ =>
    simp only [scan, bind_eq_error, pure, Except.pure, reduceCtorEq, and_false, exists_false,
      or_false, expect_eq_error_iff, scanName_eq_error_iff, scanSymbol_eq_error_iff,
      expectEnd_eq_error_iff] at h
    obtain ⟨-, rfl⟩ := h
    exact ⟨rfl, rfl⟩

end Token

/-- **An equation is scanned token by token.** -/
theorem scan_map_eq_foldlM (t : Text) : (fun _ => ([] : Text)) <$> Equation.scan t =
    Token.all.foldlM (fun rest token => token.scan rest) t.skipBlanks := by
  simp only [Token.all, List.foldlM_cons, List.foldlM_nil, Token.scan, Equation.scan, map_bind,
    map_pure, bind_assoc, pure_bind]

end EquationSheet.Equation
