import EquationSheet.Proofs.ScannedTokens

/-!
# The first fault

A text that is no equation is refused at the leftmost token that is missing. All the tokens in front
of that place have been taken at their full length, so what stands there can be completed to an
equation, and the kind of the error says which token is missing.

* `Reaches`: the tokens in front of a place, one after the other.
* `Reaches.exists_shape`: **what has been taken can be completed** to the shape of an equation.
* `scan_eq_error_iff`: the scanner stops exactly where a token is missing.
* `parse_error_iff`: an error with a text, and the missing token.
* `parse_points_at_first_fault`: **an error points at the leftmost missing token.**
-/

namespace EquationSheet.Equation

open Text

variable {t done rest : Text} {token token' : Token} {e : ParseFault × Text} {s : Shape}

/-! ### Reaching a place -/

/-- **The text has been taken up to a token**: what has been taken, and the rest in front of which
the token is expected. -/
inductive Reaches (t : Text) : Token → Text → Text → Prop
  | start {lead rest : Text} (blanks : Token.AreBlanks lead rest) (text : t = lead ++ rest) :
    Reaches t .openingQuote lead rest
  | step {token token' : Token} {done piece rest : Text}
    (reached : Reaches t token done (piece ++ rest)) (takes : token.Takes piece rest)
    (next : token.next = some token') : Reaches t token' (done ++ piece) rest

/-- Nothing is lost on the way. -/
theorem Reaches.text_eq (h : Reaches t token done rest) : t = done ++ rest := by
  induction h with
  | start _ text => exact text
  | step _ _ _ ih => rw [ih, List.append_assoc]

theorem reaches_openingQuote_iff :
    Reaches t .openingQuote done rest ↔ Token.AreBlanks done rest ∧ t = done ++ rest := by
  constructor
  · intro h
    generalize hfirst : Token.openingQuote = first at h
    cases h with
    | start blanks text => exact ⟨blanks, text⟩
    | @step before _ _ _ _ reached takes next =>
      subst hfirst
      cases before <;> simp [Token.next] at next
  · rintro ⟨blanks, text⟩
    exact .start blanks text

/-- No token comes behind two others. -/
theorem Token.next_inj (h : token.next = some token') {before : Token}
    (h' : before.next = some token') : token = before := by
  cases token <;> cases before <;> cases h <;> first | rfl | cases h'

theorem reaches_next_iff (token : Token) (hnext : token.next = some token') :
    Reaches t token' done rest ↔ ∃ front piece, Reaches t token front (piece ++ rest) ∧
      token.Takes piece rest ∧ done = front ++ piece := by
  constructor
  · intro h
    cases h with
    | start => cases token <;> simp [Token.next] at hnext
    | @step before _ front piece _ reached takes next =>
      obtain rfl := Token.next_inj hnext next
      exact ⟨front, piece, reached, takes, rfl⟩
  · rintro ⟨front, piece, reached, takes, rfl⟩
    exact .step reached takes hnext

/-! ### What has been taken can be completed -/

namespace Shape

/-- The piece of a shape that a token takes. -/
def piece (s : Shape) : Token → Text
  | .openingQuote => ['"']
  | .name => s.name
  | .closingQuote => '"' :: s.beforeEquals
  | .equalsSign => '=' :: s.beforeNumeral
  | .numeral => s.numeral.text ++ s.beforeUnit
  | .unit => s.symbol ++ s.trail
  | .finish => []

/-- The text of a shape in front of a token. -/
def upTo (s : Shape) (token : Token) : Text :=
  s.lead ++ (Token.all.takeWhile (· ≠ token)).flatMap s.piece

theorem text_eq_pieces (s : Shape) : s.text = s.lead ++ Token.all.flatMap s.piece := by
  simp [text, right, Token.all, piece]

theorem upTo_prefix (s : Shape) (token : Token) : s.upTo token <+: s.text := by
  rw [text_eq_pieces]
  unfold upTo
  rw [List.prefix_append_right_inj]
  conv_rhs => rw [← List.takeWhile_append_dropWhile (p := (· ≠ token)) (l := Token.all)]
  rw [List.flatMap_append]
  exact List.prefix_append _ _

theorem upTo_next (s : Shape) (hnext : token.next = some token') :
    s.upTo token' = s.upTo token ++ s.piece token := by
  cases token <;> cases hnext <;> simp [upTo, Token.all]

/-- **A piece that a token takes can be put into a shape**, and nothing in front of it changes. -/
theorem exists_piece (s : Shape) {piece : Text} (h : token.Takes piece rest) :
    ∃ s' : Shape, s'.piece token = piece ∧ s'.upTo token = s.upTo token := by
  cases token with
  | openingQuote => exact ⟨s, h.symm, rfl⟩
  | name => exact ⟨{ s with name := piece, isName := h.1 }, rfl, rfl⟩
  | closingQuote =>
    obtain ⟨ws, ⟨hws, -⟩, rfl⟩ := h
    refine ⟨{ s with beforeEquals := ws, blanks := ?_ }, rfl, rfl⟩
    simp [s.blank_lead, hws, s.blank_beforeNumeral, s.blank_beforeUnit, s.blank_trail]
  | equalsSign =>
    obtain ⟨ws, ⟨hws, -⟩, rfl⟩ := h
    refine ⟨{ s with beforeNumeral := ws, blanks := ?_ }, rfl, rfl⟩
    simp [s.blank_lead, s.blank_beforeEquals, hws, s.blank_beforeUnit, s.blank_trail]
  | numeral =>
    obtain ⟨n, ws, ⟨hws, -⟩, hlongest, -, rfl⟩ := h
    refine ⟨{ s with
      numeral := n
      isNumeral := hlongest.isWellFormed
      beforeUnit := ws
      blanks := ?_ }, rfl, rfl⟩
    simp [s.blank_lead, s.blank_beforeEquals, s.blank_beforeNumeral, hws, s.blank_trail]
  | unit =>
    obtain ⟨symbol, ws, ⟨hws, -⟩, hsymbol, -, rfl⟩ := h
    refine ⟨{ s with
      symbol := symbol
      isSymbol := hsymbol
      trail := ws
      blanks := ?_ }, rfl, rfl⟩
    simp [s.blank_lead, s.blank_beforeEquals, s.blank_beforeNumeral, s.blank_beforeUnit, hws]
  | finish => exact ⟨s, h.1.symm, rfl⟩

/-- The shape of `"a"=0m` behind given blanks. -/
def plain (lead : Text) (hlead : IsRun isBlank lead) : Shape where
  lead := lead
  name := ['a']
  beforeEquals := []
  beforeNumeral := []
  numeral := ⟨[], ['0'], none, none⟩
  beforeUnit := []
  symbol := ['m']
  trail := []
  isName := by simp [IsName]
  isNumeral := ⟨.inl rfl, by simp, isRun_nil, .inl (by simp), by simp⟩
  isSymbol := by simp [IsSymbol]
  blanks := by simp [hlead]

end Shape

/-- **What has been taken can be completed** to the shape of an equation. -/
theorem Reaches.exists_shape (h : Reaches t token done rest) :
    ∃ s : Shape, s.upTo token = done := by
  induction h with
  | @start lead rest blanks text =>
    exact ⟨.plain lead blanks.1, by simp [Shape.upTo, Token.all, Shape.plain]⟩
  | step _ takes next ih =>
    obtain ⟨s, hs⟩ := ih
    obtain ⟨s', hpiece, hfront⟩ := s.exists_piece takes
    exact ⟨s', by rw [s'.upTo_next next, hfront, hs, hpiece]⟩

/-! ### Where the scanner stops -/

namespace Token

/-- The token and those behind it. -/
def onwards (token : Token) : List Token := all.dropWhile (· ≠ token)

theorem onwards_openingQuote : openingQuote.onwards = all := rfl

theorem onwards_next (hnext : token.next = some token') :
    token.onwards = token :: token'.onwards := by
  cases token <;> cases hnext <;> rfl

theorem onwards_last (hnext : token.next = none) : token.onwards = [token] := by
  cases token <;> cases hnext
  rfl

end Token

/-- The tokens from one on, scanned one after the other. -/
def scanOnwards (token : Token) (t : Text) : Except (ParseFault × Text) Text :=
  token.onwards.foldlM (fun rest token => token.scan rest) t

theorem scanOnwards_next (hnext : token.next = some token') :
    scanOnwards token t = token.scan t >>= scanOnwards token' := by
  unfold scanOnwards
  rw [Token.onwards_next hnext, List.foldlM_cons]

theorem scanOnwards_last (hnext : token.next = none) : scanOnwards token t = token.scan t := by
  unfold scanOnwards
  rw [Token.onwards_last hnext, List.foldlM_cons]
  exact bind_pure _

/-- **What has been taken is scanned**, and the rest decides. -/
theorem Reaches.scanOnwards_eq (h : Reaches t token done rest) :
    scanOnwards .openingQuote t.skipBlanks = scanOnwards token rest := by
  induction h with
  | start blanks text => rw [skipBlanks_eq_iff.2 ⟨_, blanks.1, blanks.2, text⟩]
  | step _ takes next ih =>
    rw [ih, scanOnwards_next next, (Token.scan_eq_ok_iff _).2 ⟨_, takes, rfl⟩]
    rfl

/-- A scanner that stops has reached a token that it refuses. -/
theorem Reaches.exists_refused (h : Reaches t token done rest)
    (herror : scanOnwards token rest = .error e) :
    ∃ token' done' rest', Reaches t token' done' rest' ∧ token'.scan rest' = .error e := by
  -- the induction is on the tokens that are left
  induction hleft : token.onwards.length generalizing token done rest with
  | zero => cases token <;> simp [Token.onwards, Token.all] at hleft
  | succ left ih =>
    cases hnext : token.next with
    | none =>
      rw [scanOnwards_last hnext] at herror
      exact ⟨token, done, rest, h, herror⟩
    | some token' =>
      rw [scanOnwards_next hnext] at herror
      rw [Token.onwards_next hnext, List.length_cons] at hleft
      rcases bind_eq_error.1 herror with hrefused | ⟨rest', htaken, hlater⟩
      · exact ⟨token, done, rest, h, hrefused⟩
      · obtain ⟨piece, takes, rfl⟩ := (Token.scan_eq_ok_iff token).1 htaken
        exact ih (.step h takes hnext) hlater (by omega)

/-- A token that is refused stops the scanner. -/
theorem scanOnwards_eq_error (h : token.scan t = .error e) : scanOnwards token t = .error e := by
  cases hnext : token.next with
  | none => rw [scanOnwards_last hnext, h]
  | some token' =>
    rw [scanOnwards_next hnext, h]
    rfl

/-- **The scanner stops at a token exactly if it reaches it and refuses it.** -/
theorem scan_eq_error_iff : Equation.scan t = .error e ↔
    ∃ token done rest, Reaches t token done rest ∧ token.scan rest = .error e := by
  have hscan : Equation.scan t = .error e ↔ scanOnwards .openingQuote t.skipBlanks = .error e := by
    have htokens := scan_map_eq_foldlM t
    unfold scanOnwards
    rw [Token.onwards_openingQuote, ← htokens]
    cases Equation.scan t <;> simp [Functor.map, Except.map]
  rw [hscan]
  constructor
  · obtain ⟨lead, hlead, hrest, ht⟩ := skipBlanks_eq_iff.1 (rfl : t.skipBlanks = t.skipBlanks)
    exact Reaches.exists_refused (.start ⟨hlead, hrest⟩ ht)
  · rintro ⟨token, done, rest, hreaches, hrefused⟩
    rw [hreaches.scanOnwards_eq, scanOnwards_eq_error hrefused]

/-! ### Errors of an equation -/

/-- Only an equals sign is a separator. -/
theorem Token.kind_eq_missingSeparator_iff :
    token.kind = .missingSeparator ↔ token = .equalsSign := by
  cases token <;> simp [Token.kind]

/-- Only a numeral can be malformed. -/
theorem Token.kind_eq_malformedNumeral_iff :
    token.kind = .malformedNumeral ↔ token = .numeral := by
  cases token <;> simp [Token.kind]

/-- The tokens of an equation are refused for their unit, or for their value. -/
theorem ofTokens_eq_error {tokens : Tokens} {error : EquationError}
    (h : ofTokens tokens = .error error) :
    (Measure.ofSymbol? tokens.symbol = none ∧ error = .unsupportedUnit tokens.symbol) ∨
      ∃ name, error = .parse ⟨.infiniteValue name, [], 0⟩ := by
  unfold ofTokens Measure.resolve ofDisplay ofSI at h
  cases hunit : Measure.ofSymbol? tokens.symbol with
  | none =>
    rw [hunit] at h
    exact .inl ⟨rfl, (Except.error.inj h).symm⟩
  | some u =>
    rw [hunit] at h
    simp only [bind, Except.bind] at h
    split at h
    · simp at h
    · exact .inr ⟨tokens.name, (Except.error.inj h).symm⟩

/-- **An error with a text is that of the token the scanner stops at.** -/
theorem parse_error_iff {error : ParseError} :
    (parse t = .error (.parse error) ∧ error.text ≠ []) ↔ t ≠ [] ∧
      ∃ token done rest, Reaches t token done rest ∧ token.scan rest = .error (error.fault, rest) ∧
        error.text = t ∧ error.position = done.length := by
  have hlength : ∀ {token done rest}, Reaches t token done rest →
      t.length - rest.length = done.length := by
    intro token done rest hreaches
    rw [hreaches.text_eq, List.length_append]
    omega
  constructor
  · rintro ⟨hparse, htext⟩
    unfold parse at hparse
    cases hscan : scan t with
    | ok tokens =>
      rw [hscan] at hparse
      rcases ofTokens_eq_error hparse with ⟨-, hunit⟩ | ⟨name, hvalue⟩
      · simp at hunit
      · obtain rfl := EquationError.parse.inj hvalue
        exact absurd rfl htext
    | error e =>
      obtain ⟨fault, left⟩ := e
      rw [hscan] at hparse
      obtain rfl := EquationError.parse.inj (Except.error.inj hparse)
      obtain ⟨token, done, rest, hreaches, hrefused⟩ := scan_eq_error_iff.1 hscan
      obtain rfl : left = rest := (Token.of_scan_eq_error hrefused).1
      exact ⟨htext, token, done, left, hreaches, hrefused, rfl, by simp [hlength hreaches]⟩
  · rintro ⟨hne, token, done, rest, hreaches, hrefused, rfl, hposition⟩
    refine ⟨?_, hne⟩
    unfold parse
    rw [scan_eq_error_iff.2 ⟨token, done, rest, hreaches, hrefused⟩]
    simp only [hlength hreaches, ← hposition]

/-- Where a token is missing there is an error of its kind. -/
theorem Reaches.exists_error (h : Reaches t token done rest) (hne : t ≠ [])
    (hmisses : token.Misses rest) :
    ∃ fault, parse t = .error (.parse ⟨fault, t, done.length⟩) ∧ fault.kind = token.kind := by
  obtain ⟨⟨fault, left⟩, hrefused⟩ := (Token.scan_eq_error_iff token).2 hmisses
  obtain ⟨rfl, hkind⟩ := Token.of_scan_eq_error hrefused
  have hparse : parse t = .error (.parse ⟨fault, t, done.length⟩) ∧ t ≠ [] :=
    parse_error_iff.2 ⟨hne, token, done, left, h, hrefused, rfl, rfl⟩
  exact ⟨fault, hparse.1, hkind⟩

/-- **Errors of a kind** stand where a token of that kind is missing. -/
theorem exists_error_iff (kind : FaultKind) :
    (∃ error, parse t = .error (.parse error) ∧ error.text ≠ [] ∧ error.fault.kind = kind) ↔
      t ≠ [] ∧ ∃ token done rest, Reaches t token done rest ∧ token.Misses rest ∧
        token.kind = kind := by
  constructor
  · rintro ⟨error, hparse, htext, rfl⟩
    obtain ⟨hne, token, done, rest, hreaches, hrefused, -⟩ := parse_error_iff.1 ⟨hparse, htext⟩
    exact ⟨hne, token, done, rest, hreaches, (Token.scan_eq_error_iff token).1 ⟨_, hrefused⟩,
      (Token.of_scan_eq_error hrefused).2.symm⟩
  · rintro ⟨hne, token, done, rest, hreaches, hmisses, rfl⟩
    obtain ⟨fault, hparse, hkind⟩ := hreaches.exists_error hne hmisses
    exact ⟨_, hparse, hne, hkind⟩

/-! ### The places in plain words -/

/-- The text begins with a quoted name, and the rest of it stands behind the blanks there. -/
def NamesVariable (t rest : Text) : Prop :=
  ∃ lead name ws, IsRun isBlank lead ∧ IsName name ∧ Token.AreBlanks ws rest ∧
    t = lead ++ '"' :: (name ++ '"' :: (ws ++ rest))

/-- The text begins with a quoted name and an equals sign, and the rest of it stands behind the
blanks there. -/
def OpensValue (t rest : Text) : Prop :=
  ∃ ws, Token.AreBlanks ws rest ∧ NamesVariable t ('=' :: (ws ++ rest))

theorem NamesVariable.ne_nil (h : NamesVariable t rest) : t ≠ [] := by
  obtain ⟨lead, name, ws, -, -, -, rfl⟩ := h
  simp

theorem reaches_equalsSign_iff :
    (∃ done, Reaches t .equalsSign done rest) ↔ NamesVariable t rest := by
  constructor
  · rintro ⟨done, h⟩
    obtain ⟨_, _, hnamed, ⟨ws, hws, rfl⟩, rfl⟩ := (reaches_next_iff .closingQuote rfl).1 h
    obtain ⟨_, name, hopened, ⟨hname, -⟩, rfl⟩ := (reaches_next_iff .name rfl).1 hnamed
    obtain ⟨lead, quote, hfirst, hquote, rfl⟩ := (reaches_next_iff .openingQuote rfl).1 hopened
    obtain rfl : quote = ['"'] := hquote
    obtain ⟨⟨hlead, -⟩, ht⟩ := reaches_openingQuote_iff.1 hfirst
    exact ⟨lead, name, ws, hlead, hname, hws, by simpa using ht⟩
  · rintro ⟨lead, name, ws, hlead, hname, hws, rfl⟩
    -- a quote ends the blanks in front of it, and also the name
    have hquote : StartsOutside isBlank ('"' :: (name ++ '"' :: (ws ++ rest))) := by simp [isBlank]
    have hend : StartsOutside Char.isAlphanum ('"' :: (ws ++ rest)) := by simp
    have hfirst := reaches_openingQuote_iff.2 ⟨⟨hlead, hquote⟩, rfl⟩
    have hopened := (reaches_next_iff .openingQuote rfl).2 ⟨lead, ['"'], hfirst, rfl, rfl⟩
    have hnamed := (reaches_next_iff .name rfl).2 ⟨_, name, hopened, ⟨hname, hend⟩, rfl⟩
    exact ⟨_, (reaches_next_iff .closingQuote rfl).2 ⟨_, '"' :: ws, hnamed, ⟨ws, hws, rfl⟩, rfl⟩⟩

theorem reaches_numeral_iff : (∃ done, Reaches t .numeral done rest) ↔ OpensValue t rest := by
  constructor
  · rintro ⟨done, h⟩
    obtain ⟨front, _, hnamed, ⟨ws, hws, rfl⟩, rfl⟩ := (reaches_next_iff .equalsSign rfl).1 h
    exact ⟨ws, hws, reaches_equalsSign_iff.1 ⟨front, hnamed⟩⟩
  · rintro ⟨ws, hws, hnames⟩
    obtain ⟨front, h⟩ := reaches_equalsSign_iff.2 hnames
    exact ⟨_, (reaches_next_iff .equalsSign rfl).2 ⟨front, '=' :: ws, h, ⟨ws, hws, rfl⟩, rfl⟩⟩

theorem parse_eq_unsupportedUnit_iff {symbol : Text} :
    parse t = .error (.unsupportedUnit symbol) ↔ ∃ s : Shape, s.text = t ∧
      s.numeral.nearest.isFinite = true ∧ s.symbol = symbol ∧
      Measure.ofSymbol? symbol = none := by
  constructor
  · intro h
    unfold parse at h
    cases hscan : scan t with
    | error e => rw [hscan] at h; simp at h
    | ok tokens =>
      rw [hscan] at h
      obtain ⟨s, hs, hvalue, -, hsymbol⟩ := exists_shape_of_scan hscan
      obtain ⟨-, hnearest, hfinite⟩ := Numeral.value_eq_ok_iff.1 hvalue
      rcases ofTokens_eq_error h with ⟨hunit, hname⟩ | ⟨name, hvalue⟩
      · obtain rfl := EquationError.unsupportedUnit.inj hname
        exact ⟨s, hs, hnearest ▸ hfinite, hsymbol, hunit⟩
      · simp at hvalue
  · rintro ⟨s, rfl, hfinite, rfl, hunit⟩
    rw [parse_shape s (s.isNumeral.value_eq hfinite)]
    simp only [ofTokens, Measure.resolve, hunit]
    rfl

/-- **An error points at the leftmost missing token.** An error that carries a text carries the one
that was read. Its position lies in that text, what stands in front of it can be completed to the
shape of an equation, the tokens there have been taken one after the other, and the kind is that of
the token that is missing; and wherever a token is missing there is such an error. So a separator is
missing behind a quoted name without an equals sign, and a number is malformed where behind the
equals sign there is no numeral, or the longest one is too large. Only a text of the whole shape is
refused for its unit. -/
theorem parse_points_at_first_fault (t : Text) :
    (∀ error, parse t = .error (.parse error) → error.text ≠ [] →
      error.text = t ∧ 0 ≤ error.position ∧ error.position ≤ t.length ∧
      (∃ s : Shape, t.take error.position.toNat <+: s.text) ∧
      ∃ token rest, Reaches t token (t.take error.position.toNat) rest ∧ token.Misses rest ∧
        error.fault.kind = token.kind) ∧
    (∀ token done rest, t ≠ [] → Reaches t token done rest → token.Misses rest →
      ∃ error, parse t = .error (.parse error) ∧ error.text = t ∧
        error.position = done.length ∧ error.fault.kind = token.kind) ∧
    ((∃ error, parse t = .error (.parse error) ∧ error.text ≠ [] ∧
        error.fault.kind = .missingSeparator) ↔
      ∃ rest, NamesVariable t rest ∧ StartsOutside (· == '=') rest) ∧
    ((∃ error, parse t = .error (.parse error) ∧ error.text ≠ [] ∧
        error.fault.kind = .malformedNumeral) ↔
      ∃ rest, OpensValue t rest ∧ ((∀ n : Numeral, n.IsWellFormed → ¬n.text <+: rest) ∨
        ∃ n : Numeral, n.IsLongest rest ∧ n.nearest.isFinite = false)) ∧
    ∀ symbol, parse t = .error (.unsupportedUnit symbol) ↔ ∃ s : Shape, s.text = t ∧
      s.numeral.nearest.isFinite = true ∧ s.symbol = symbol ∧
      Measure.ofSymbol? symbol = none := by
  refine ⟨?_, ?_, ?_, ?_, fun symbol => parse_eq_unsupportedUnit_iff⟩
  · intro error hparse htext
    obtain ⟨-, token, done, rest, hreaches, hrefused, heq, hposition⟩ :=
      parse_error_iff.1 ⟨hparse, htext⟩
    have hsplit := hreaches.text_eq
    have hdone : t.take error.position.toNat = done := by
      rw [hposition, Int.toNat_natCast, hsplit, List.take_left]
    have hlength := congrArg List.length hsplit
    rw [List.length_append] at hlength
    obtain ⟨s, hs⟩ := hreaches.exists_shape
    rw [hdone]
    exact ⟨heq, by omega, by omega, ⟨s, hs ▸ s.upTo_prefix token⟩, token, rest, hreaches,
      (Token.scan_eq_error_iff token).1 ⟨_, hrefused⟩, (Token.of_scan_eq_error hrefused).2⟩
  · intro token done rest hne hreaches hmisses
    obtain ⟨fault, hparse, hkind⟩ := hreaches.exists_error hne hmisses
    exact ⟨_, hparse, rfl, rfl, hkind⟩
  · rw [exists_error_iff]
    constructor
    · rintro ⟨-, token, done, rest, hreaches, hmisses, hkind⟩
      obtain rfl := Token.kind_eq_missingSeparator_iff.1 hkind
      exact ⟨rest, reaches_equalsSign_iff.1 ⟨done, hreaches⟩, hmisses⟩
    · rintro ⟨rest, hnames, hmisses⟩
      obtain ⟨done, hreaches⟩ := reaches_equalsSign_iff.2 hnames
      exact ⟨hnames.ne_nil, .equalsSign, done, rest, hreaches, hmisses, rfl⟩
  · rw [exists_error_iff]
    constructor
    · rintro ⟨-, token, done, rest, hreaches, hmisses, hkind⟩
      obtain rfl := Token.kind_eq_malformedNumeral_iff.1 hkind
      exact ⟨rest, reaches_numeral_iff.1 ⟨done, hreaches⟩, hmisses⟩
    · rintro ⟨rest, hopens, hmisses⟩
      obtain ⟨done, hreaches⟩ := reaches_numeral_iff.2 hopens
      obtain ⟨ws, -, hnames⟩ := hopens
      exact ⟨hnames.ne_nil, .numeral, done, rest, hreaches, hmisses, rfl⟩

-- the longest numeral takes the letter and the digit, and the unit is missing behind it
example : parse "\"a\" = 1e5".toList = .error (.parse ⟨.unit, "\"a\" = 1e5".toList, 9⟩) := by
  decide +kernel

end EquationSheet.Equation
