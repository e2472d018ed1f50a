import EquationSheet.Proofs.Numerals

/-!
# The longest numeral

The scanner takes every part of a numeral where it can and never looks back. A numeral that begins a
text either ends in front of what does not extend it, and then it is what the scanner finds, or it
begins a longer numeral. So the scanner finds the longest one, and where it finds no number there is
none.

* `endsBefore_or_longer`: a numeral ends, or is continued by the text behind it.
* `isLongest_scan`: **the scanner finds the longest numeral**, as soon as there is any.
* `read_eq_ok_iff`, `read_eq_error_iff`: what reading finds, and when it finds nothing.
* `parse_eq_ok_iff`: a whole text is read as its numeral.
* `matchAt_longest`: **the number at a column** is that of the longest numeral there.
-/

namespace EquationSheet.Numeral

open Text

variable {n m : Numeral} {t rest : Text} {x : Binary64}

/-- The text is a numeral of the grammar. -/
def IsNumeral (t : Text) : Prop := ∃ n : Numeral, n.IsWellFormed ∧ n.text = t

/-! ### Longer numerals -/

/-- A digit behind a numeral makes it longer. -/
theorem exists_append_digit (hn : n.IsWellFormed) {d : Char} (hd : d.isDigit = true) :
    ∃ m : Numeral, m.IsWellFormed ∧ m.text = n.text ++ [d] := by
  have hrun : IsRun Char.isDigit [d] := by simpa using hd
  -- the digit joins the last part that the numeral has
  cases hexponent : n.exponent with
  | some e =>
    have he := hn.exponent e hexponent
    have he' : (⟨e.marker, e.sign, e.digits ++ [d]⟩ : Exponent).IsWellFormed :=
      ⟨he.marker, he.sign, isRun_append.2 ⟨he.digits, hrun⟩, by simp⟩
    refine ⟨{ n with exponent := some ⟨e.marker, e.sign, e.digits ++ [d]⟩ },
      ⟨hn.sign, hn.whole, hn.fraction, hn.mantissa, ?_⟩, ?_⟩
    · intro f hf
      obtain rfl := Option.some.inj hf
      exact he'
    · simp [text, hexponent, exponentText, Exponent.text]
  | none =>
    cases hfraction : n.fraction with
    | some ds =>
      have hds : IsRun Char.isDigit ds := hn.isRun_fraction hfraction
      refine ⟨{ n with fraction := some (ds ++ [d]) },
        ⟨hn.sign, hn.whole, isRun_append.2 ⟨hds, hrun⟩, .inr ⟨ds ++ [d], rfl, by simp⟩,
          hn.exponent⟩, ?_⟩
      simp [text, hexponent, hfraction, exponentText, fractionText]
    | none =>
      refine ⟨{ n with whole := n.whole ++ [d] },
        ⟨hn.sign, isRun_append.2 ⟨hn.whole, hrun⟩, hn.fraction, .inl (by simp), hn.exponent⟩, ?_⟩
      simp [text, hexponent, hfraction, exponentText, fractionText]

/-- A point behind a whole number opens its fraction. -/
theorem exists_append_point (hn : n.IsWellFormed) (hfraction : n.fraction = none)
    (hexponent : n.exponent = none) : ∃ m : Numeral, m.IsWellFormed ∧ m.text = n.text ++ ['.'] := by
  have hwhole : n.whole ≠ [] := by
    rcases hn.mantissa with h | ⟨ds, hds, -⟩
    · exact h
    · simp [hfraction] at hds
  refine ⟨{ n with fraction := some [] }, ⟨hn.sign, hn.whole, isRun_nil, .inl hwhole, hn.exponent⟩,
    ?_⟩
  simp [text, hexponent, hfraction, exponentText, fractionText]

/-- An exponent behind a numeral without one belongs to it. -/
theorem exists_append_exponent (hn : n.IsWellFormed) (hexponent : n.exponent = none) {e : Exponent}
    (he : e.IsWellFormed) : ∃ m : Numeral, m.IsWellFormed ∧ m.text = n.text ++ e.text := by
  refine ⟨{ n with exponent := some e }, ⟨hn.sign, hn.whole, hn.fraction, hn.mantissa, ?_⟩, ?_⟩
  · intro f hf
    obtain rfl := Option.some.inj hf
    exact he
  · simp [text, hexponent, exponentText]

/-- **A numeral ends, or is continued** by the text behind it. -/
theorem endsBefore_or_longer (hn : n.IsWellFormed) (rest : Text) :
    n.EndsBefore rest ∨ ∃ (m : Numeral) (more behind : Text), m.IsWellFormed ∧ more ≠ [] ∧
      rest = more ++ behind ∧ m.text = n.text ++ more := by
  by_cases hdigit : StartsOutside Char.isDigit rest
  · by_cases hpoint : n.fraction = none → n.exponent = none → StartsOutside (· == '.') rest
    · by_cases hexponent : n.exponent = none → (scanExponent rest).1 = none
      · exact .inl ⟨hdigit, hpoint, hexponent⟩
      · -- an exponent follows
        push Not at hexponent
        obtain ⟨hnone, hscan⟩ := hexponent
        obtain ⟨e, he⟩ := Option.ne_none_iff_exists'.1 hscan
        have hwf : e.IsWellFormed := isWellFormed_scanExponent rest e he
        have hsplit := scanExponent_append rest
        rw [he] at hsplit
        obtain ⟨m, hm, htext⟩ := exists_append_exponent hn hnone hwf
        exact .inr ⟨m, e.text, _, hm, by simp [Exponent.text], hsplit.symm, htext⟩
    · push Not at hpoint
      obtain ⟨hfraction, hnone, hstart⟩ := hpoint
      cases rest with
      | nil => exact absurd startsOutside_nil hstart
      | cons c rest =>
        obtain rfl : c = '.' := by simpa using hstart
        obtain ⟨m, hm, htext⟩ := exists_append_point hn hfraction hnone
        exact .inr ⟨m, ['.'], rest, hm, by simp, rfl, htext⟩
  · cases rest with
    | nil => exact absurd startsOutside_nil hdigit
    | cons d rest =>
      have hd : d.isDigit = true := by simpa using hdigit
      obtain ⟨m, hm, htext⟩ := exists_append_digit hn hd
      exact .inr ⟨m, [d], rest, hm, by simp, rfl, htext⟩

/-! ### What the scanner finds -/

/-- The numeral begins the text, and no longer one does. -/
structure IsLongest (n : Numeral) (t : Text) : Prop where
  isWellFormed : n.IsWellFormed
  begins : n.text <+: t
  longest : ∀ m : Numeral, m.IsWellFormed → m.text <+: t → m.text.length ≤ n.text.length

/-- No numeral at the start of a text is longer than the one that is scanned. -/
theorem length_le_scan (hm : m.IsWellFormed) (h : m.text <+: t) :
    (scan t).1.IsWellFormed ∧ m.text.length ≤ (scan t).1.text.length := by
  obtain ⟨rest, rfl⟩ := h
  -- the induction is on the text behind the numeral, which gets shorter as the numeral gets longer
  induction hlen : rest.length using Nat.strongRecOn generalizing m rest with
  | ind k ih =>
    rcases endsBefore_or_longer hm rest with hends | ⟨m', more, behind, hm', hne, rfl, htext⟩
    · rw [scan_of_endsBefore hm hends]
      exact ⟨hm, le_rfl⟩
    · have hmore : 0 < more.length := List.length_pos_iff.2 hne
      have hsame : m.text ++ (more ++ behind) = m'.text ++ behind := by
        rw [htext, List.append_assoc]
      have hlength : m'.text.length = m.text.length + more.length := by
        rw [htext, List.length_append]
      rw [List.length_append] at hlen
      obtain ⟨hwf, hle⟩ := ih behind.length (by omega) hm' behind rfl
      rw [hsame]
      exact ⟨hwf, by omega⟩

/-- **The scanner finds the longest numeral** at the start of a text, if what it finds is a numeral
at all. -/
theorem isLongest_scan (h : (scan t).1.IsWellFormed) : IsLongest (scan t).1 t :=
  ⟨h, ⟨(scan t).2, scan_text t⟩, fun _ hm hbegins => (length_le_scan hm hbegins).2⟩

/-- The longest numeral is the one that is scanned. -/
theorem IsLongest.scan_eq (h : IsLongest n (n.text ++ rest)) :
    scan (n.text ++ rest) = (n, rest) := by
  rcases endsBefore_or_longer h.isWellFormed rest with hends | ⟨m, more, behind, hm, hne, rfl, htext⟩
  · exact scan_of_endsBefore h.isWellFormed hends
  · have hle := h.longest m hm ⟨behind, by rw [htext, List.append_assoc]⟩
    rw [htext, List.length_append] at hle
    have hmore : 0 < more.length := List.length_pos_iff.2 hne
    omega

/-- A text has one longest numeral at its start. -/
theorem IsLongest.eq_scan (h : IsLongest n t) : n = (scan t).1 := by
  obtain ⟨rest, rfl⟩ := h.begins
  rw [h.scan_eq]

/-- **A numeral is scanned whole exactly in front of a text that does not extend it.** -/
theorem scan_append_iff (hn : n.IsWellFormed) :
    scan (n.text ++ rest) = (n, rest) ↔ n.EndsBefore rest := by
  refine ⟨fun hscan => ?_, scan_of_endsBefore hn⟩
  rcases endsBefore_or_longer hn rest with hends | ⟨m, more, behind, hm, hne, rfl, htext⟩
  · exact hends
  · have hle : m.text.length ≤ n.text.length := by
      have hle := (length_le_scan hm ⟨behind, by rw [htext, List.append_assoc]⟩).2
      rwa [hscan] at hle
    rw [htext, List.length_append] at hle
    have hmore : 0 < more.length := List.length_pos_iff.2 hne
    omega

/-! ### What reading finds -/

/-- The value of a numeral is refused as a malformed number. -/
theorem kind_of_value_error {fault : ParseFault} (h : n.value = .error fault) :
    fault.kind = .malformedNumeral := by
  unfold value at h
  split at h
  · obtain rfl := Except.error.inj h
    rfl
  · split at h
    · simp at h
    · obtain rfl := Except.error.inj h
      rfl

theorem kind_of_read_error {fault : ParseFault} (h : read t = .error fault) :
    fault.kind = .malformedNumeral := by
  unfold read at h
  simp only at h
  split at h
  · obtain rfl := Except.error.inj h
    rfl
  · cases hvalue : (scan t).1.value with
    | ok x => rw [hvalue] at h; simp [Except.map] at h
    | error fault' =>
      rw [hvalue] at h
      obtain rfl := Except.error.inj h
      exact kind_of_value_error hvalue

/-- What is read in front of the rest of a text is the value of the longest numeral. -/
theorem read_of_isLongest (h : IsLongest n (n.text ++ rest)) :
    read (n.text ++ rest) = n.value.map (·, rest) :=
  read_of_scan h.scan_eq h.isWellFormed.mantissa_ne

/-- **Reading finds the longest numeral** at the start of a text, and answers its value. -/
theorem read_eq_ok_iff : read t = .ok (x, rest) ↔
    ∃ n : Numeral, IsLongest n t ∧ n.value = .ok x ∧ t = n.text ++ rest := by
  constructor
  · intro h
    obtain ⟨n, hn, hscan, ht, hnearest, hfinite⟩ := exists_of_read h
    have hlongest := isLongest_scan (t := t) (by rw [hscan]; exact hn)
    rw [hscan] at hlongest
    exact ⟨n, hlongest, value_eq_ok_iff.2 ⟨hn.mantissa_ne, hnearest, hfinite⟩, ht⟩
  · rintro ⟨n, hlongest, hvalue, rfl⟩
    rw [read_of_isLongest hlongest, hvalue]
    rfl

/-- A text with a numeral at its start has a longest one there. -/
theorem exists_isLongest (hm : m.IsWellFormed) (h : m.text <+: t) : ∃ n : Numeral, IsLongest n t :=
  ⟨(scan t).1, isLongest_scan (length_le_scan hm h).1⟩

/-- **Reading finds nothing** where no numeral begins the text, or where the longest one is too
large. -/
theorem read_eq_error_iff : (∃ fault, read t = .error fault) ↔
    (∀ n : Numeral, n.IsWellFormed → ¬n.text <+: t) ∨
      ∃ n : Numeral, IsLongest n t ∧ n.nearest.isFinite = false := by
  constructor
  · rintro ⟨fault, hfault⟩
    by_cases hnone : ∀ n : Numeral, n.IsWellFormed → ¬n.text <+: t
    · exact .inl hnone
    · push Not at hnone
      obtain ⟨m, hm, hbegins⟩ := hnone
      obtain ⟨n, hlongest⟩ := exists_isLongest hm hbegins
      refine .inr ⟨n, hlongest, ?_⟩
      obtain ⟨rest, rfl⟩ := hlongest.begins
      by_contra hfinite
      have hvalue : n.value = .ok n.nearest :=
        hlongest.isWellFormed.value_eq (by simpa using hfinite)
      rw [read_of_isLongest hlongest, hvalue] at hfault
      simp [Except.map] at hfault
  · intro h
    cases hread : read t with
    | error fault => exact ⟨fault, rfl⟩
    | ok found =>
      obtain ⟨n, hlongest, hvalue, -⟩ := read_eq_ok_iff.1 hread
      obtain ⟨-, hnearest, hfinite⟩ := value_eq_ok_iff.1 hvalue
      rcases h with hnone | ⟨m, hm, hinfinite⟩
      · exact absurd hlongest.begins (hnone n hlongest.isWellFormed)
      · have hsame : m = n := hm.eq_scan.trans hlongest.eq_scan.symm
        rw [hsame, hnearest, hfinite] at hinfinite
        exact absurd hinfinite (by decide)

/-- **A whole text is read as its numeral.** -/
theorem parse_eq_ok_iff : parse t = .ok x ↔
    ∃ n : Numeral, n.IsWellFormed ∧ n.text = t ∧ n.value = .ok x := by
  constructor
  · intro h
    have htext := scan_text t
    unfold parse at h
    simp only at h
    split at h
    · simp at h
    · rename_i hwhole
      have hrest : (scan t).2 = [] := by
        simp only [Bool.or_eq_true, not_or] at hwhole
        simpa using hwhole.2
      cases hvalue : (scan t).1.value with
      | error fault => rw [hvalue] at h; simp [Except.mapError] at h
      | ok y =>
        rw [hvalue] at h
        obtain rfl := Except.ok.inj h
        rw [hrest, List.append_nil] at htext
        exact ⟨(scan t).1, isWellFormed_scan (value_eq_ok_iff.1 hvalue).1, htext, hvalue⟩
  · rintro ⟨n, hn, rfl, hvalue⟩
    have hne : n.text ≠ [] := text_ne_nil hn.mantissa_ne
    unfold parse
    rw [scan_of_isWellFormed hn]
    simp [hne, hvalue, Except.mapError]

/-! ### Columns -/

/-- The numeral stands at the column `pos` and ends at `stop`, and no piece of the text from `pos`
to a later column is a numeral. -/
structure IsLongestAt (n : Numeral) (t : Text) (pos stop : ℕ) : Prop where
  isWellFormed : n.IsWellFormed
  stop_le : stop ≤ t.length
  piece : t.extract pos stop = n.text
  longest : ∀ e, stop < e → e ≤ t.length → ¬IsNumeral (t.extract pos e)

/-- What begins the text behind a column is a piece of the text. -/
theorem extract_of_begins {pos : ℕ} {s : Text} (h : s <+: t.drop pos) (hne : s ≠ []) :
    pos + s.length ≤ t.length ∧ t.extract pos (pos + s.length) = s := by
  have hpos : 0 < s.length := List.length_pos_iff.2 hne
  have hle := h.length_le
  rw [List.length_drop] at hle
  refine ⟨by omega, ?_⟩
  rw [List.extract_eq_take_drop, Nat.add_sub_cancel_left]
  exact (List.prefix_iff_eq_take.1 h).symm

/-- The longest numeral at a column is the longest at the start of the text behind it. -/
theorem isLongestAt_iff {pos stop : ℕ} :
    IsLongestAt n t pos stop ↔ IsLongest n (t.drop pos) ∧ stop = pos + n.text.length := by
  constructor
  · intro h
    have hne : n.text ≠ [] := text_ne_nil h.isWellFormed.mantissa_ne
    have hpos : 0 < n.text.length := List.length_pos_iff.2 hne
    have hpiece := h.piece
    rw [List.extract_eq_take_drop] at hpiece
    have hlength := congrArg List.length hpiece
    rw [List.length_take, List.length_drop] at hlength
    have hstop := h.stop_le
    refine ⟨⟨h.isWellFormed, ?_, fun m hm hbegins => ?_⟩, by omega⟩
    · rw [← hpiece]
      exact List.take_prefix _ _
    · -- a longer one would be a longer piece
      by_contra hlonger
      obtain ⟨hle, hextract⟩ := extract_of_begins hbegins (text_ne_nil hm.mantissa_ne)
      exact h.longest (pos + m.text.length) (by omega) hle ⟨m, hm, hextract.symm⟩
  · rintro ⟨h, rfl⟩
    obtain ⟨hle, hextract⟩ := extract_of_begins h.begins (text_ne_nil h.isWellFormed.mantissa_ne)
    refine ⟨h.isWellFormed, hle, hextract, fun e hstop he hnumeral => ?_⟩
    obtain ⟨m, hm, htext⟩ := hnumeral
    have hlonger := h.longest m hm (by rw [htext]; exact List.take_prefix _ _)
    have hlength := congrArg List.length htext
    rw [List.extract_eq_take_drop, List.length_take, List.length_drop] at hlength
    omega

theorem suffixAt_natCast (t : Text) (pos : ℕ) : suffixAt t pos = t.drop pos := by
  rw [suffixAt, Int.toNat_natCast]

/-- **The number at a column** is the value of the longest numeral there. -/
theorem matchAt_eq_ok_iff {pos stop : ℕ} : matchAt t pos = .ok (x, stop) ↔
    ∃ n : Numeral, IsLongestAt n t pos stop ∧ n.value = .ok x := by
  unfold matchAt
  rw [suffixAt_natCast]
  constructor
  · intro h
    cases hread : read (t.drop pos) with
    | error fault => rw [hread] at h; simp at h
    | ok found =>
      obtain ⟨y, rest⟩ := found
      rw [hread] at h
      obtain ⟨rfl, rfl⟩ := Prod.mk.inj (Except.ok.inj h)
      obtain ⟨n, hlongest, hvalue, ht⟩ := read_eq_ok_iff.1 hread
      obtain ⟨hle, -⟩ := extract_of_begins hlongest.begins
        (text_ne_nil hlongest.isWellFormed.mantissa_ne)
      have hlength := congrArg List.length ht
      rw [List.length_append, List.length_drop] at hlength
      exact ⟨n, isLongestAt_iff.2 ⟨hlongest, by omega⟩, hvalue⟩
  · rintro ⟨n, hat, hvalue⟩
    obtain ⟨hlongest, rfl⟩ := isLongestAt_iff.1 hat
    obtain ⟨rest, ht⟩ := hlongest.begins
    have hlength := congrArg List.length ht
    rw [List.length_append, List.length_drop] at hlength
    have hle := hat.stop_le
    rw [read_eq_ok_iff.2 ⟨n, hlongest, hvalue, ht.symm⟩]
    simp only [Except.ok.injEq, Prod.mk.injEq, true_and]
    omega

/-- There is no number at a column where there is none to be read. -/
theorem matchAt_eq_error {pos : ℕ} {fault : ParseFault} (h : read (t.drop pos) = .error fault) :
    matchAt t pos = .error ⟨fault, t, pos⟩ := by
  unfold matchAt
  rw [suffixAt_natCast, h]

theorem exists_matchAt_error_iff {pos : ℕ} : (∃ error, matchAt t pos = .error error) ↔
    ∃ fault, read (t.drop pos) = .error fault := by
  unfold matchAt
  rw [suffixAt_natCast]
  cases read (t.drop pos) with
  | ok found => simp
  | error fault => simp

/-- **The outcome at a column is that of the text behind it**, with the columns moved. -/
theorem matchAt_eq_moved (t : Text) (pos : ℕ) : matchAt t pos =
    ((matchAt (t.drop pos) 0).map fun found => (found.1, pos + found.2)).mapError
      fun error => ⟨error.fault, t, pos + error.position⟩ := by
  cases hread : read (t.drop pos) with
  | error fault =>
    have hzero : read ((t.drop pos).drop 0) = .error fault := by rwa [List.drop_zero]
    have hmoved := matchAt_eq_error hzero
    rw [Nat.cast_zero] at hmoved
    rw [matchAt_eq_error hread, hmoved]
    simp [Except.map, Except.mapError]
  | ok found =>
    obtain ⟨x, rest⟩ := found
    obtain ⟨n, hlongest, hvalue, -⟩ := read_eq_ok_iff.1 hread
    have hzero : IsLongestAt n (t.drop pos) 0 (0 + n.text.length) :=
      isLongestAt_iff.2 ⟨by rwa [List.drop_zero], rfl⟩
    have hmoved := matchAt_eq_ok_iff.2 ⟨n, hzero, hvalue⟩
    have hhere := matchAt_eq_ok_iff.2 ⟨n, isLongestAt_iff.2 ⟨hlongest, rfl⟩, hvalue⟩
    rw [Nat.cast_zero] at hmoved
    rw [hhere, hmoved]
    simp [Except.map, Except.mapError]

/-- **The number at a column is that of the longest numeral there.** What is found is a piece of the
text that is read as the same number when it stands alone, and no longer piece from the same column
is a numeral. It is refused, as a malformed number, exactly if no piece from the column is a numeral
or the longest one is too large. Only the text behind the column counts: the outcome is that of this
text alone, with the columns moved. -/
theorem matchAt_longest (t : Text) (pos : ℕ) :
    (∀ x stop, matchAt t pos = .ok (x, stop) ↔
      pos < stop ∧ stop ≤ t.length ∧ parse (t.extract pos stop) = .ok x ∧
        ∀ e, stop < e → e ≤ t.length → ¬IsNumeral (t.extract pos e)) ∧
    ((∃ error, matchAt t pos = .error error) ↔
      (∀ e ≤ t.length, ¬IsNumeral (t.extract pos e)) ∨
        ∃ n stop, IsLongestAt n t pos stop ∧ n.nearest.isFinite = false) ∧
    (∀ error, matchAt t pos = .error error → error.fault.kind = .malformedNumeral) ∧
    matchAt t pos = ((matchAt (t.drop pos) 0).map fun found => (found.1, pos + found.2)).mapError
      fun error => ⟨error.fault, t, pos + error.position⟩ := by
  refine ⟨fun x stop => ?_, ?_, fun error herror => ?_, ?_⟩
  · rw [matchAt_eq_ok_iff]
    constructor
    · rintro ⟨n, hat, hvalue⟩
      obtain ⟨hlongest, hstop⟩ := isLongestAt_iff.1 hat
      have hpos : 0 < n.text.length :=
        List.length_pos_iff.2 (text_ne_nil hlongest.isWellFormed.mantissa_ne)
      exact ⟨by omega, hat.stop_le, parse_eq_ok_iff.2 ⟨n, hat.isWellFormed, hat.piece.symm, hvalue⟩,
        hat.longest⟩
    · rintro ⟨-, hle, hparse, hlongest⟩
      obtain ⟨n, hn, htext, hvalue⟩ := parse_eq_ok_iff.1 hparse
      exact ⟨n, ⟨hn, hle, htext.symm, hlongest⟩, hvalue⟩
  · rw [exists_matchAt_error_iff, read_eq_error_iff]
    refine or_congr ⟨fun hnone e _ => ?_, fun hnone n hn hbegins => ?_⟩ ⟨?_, ?_⟩
    · rintro ⟨n, hn, htext⟩
      exact hnone n hn (by rw [htext]; exact List.take_prefix _ _)
    · obtain ⟨hle, hextract⟩ := extract_of_begins hbegins (text_ne_nil hn.mantissa_ne)
      exact hnone _ hle ⟨n, hn, hextract.symm⟩
    · rintro ⟨n, hlongest, hinfinite⟩
      exact ⟨n, _, isLongestAt_iff.2 ⟨hlongest, rfl⟩, hinfinite⟩
    · rintro ⟨n, stop, hat, hinfinite⟩
      exact ⟨n, (isLongestAt_iff.1 hat).1, hinfinite⟩
  · obtain ⟨fault, hread⟩ := exists_matchAt_error_iff.1 ⟨error, herror⟩
    rw [matchAt_eq_error hread] at herror
    obtain rfl := Except.error.inj herror
    exact kind_of_read_error hread
  · exact matchAt_eq_moved t pos

/-- A marker without digits behind its sign opens no exponent. -/
example : (matchAt "x=1.5e+mm".toList 2).map Prod.snd = .ok 5 := by decide +kernel

end EquationSheet.Numeral
