import EquationSheet.Proofs.JsonText
import EquationSheet.Text.Line

/-!
# Values that are read

Every value that a reader builds can be written and read again, and so can the value with other
members set. A text that was written holds only line feeds and printable ASCII characters, so that
nothing is lost when a file is read line by line.

* `fits_of_parseWithin`: what is read can be read back.
* `Fits.put`, `Fits.putDefault`, `Fits.filter`: so can an object that is changed.
* `isRun_write`: the characters of a written value.
* `unifyNewlines_indented`: reading a file does not change it.
-/

namespace EquationSheet.Json

open Text

/-! ### What is read -/

section Read

theorem exists_of_map_eq_ok {ε α β : Type} {x : Except ε α} {f : α → β} {b : β}
    (h : x.map f = .ok b) : ∃ a, x = .ok a ∧ f a = b := by
  cases x with
  | error e => simp [Except.map] at h
  | ok a => exact ⟨a, rfl, Except.ok.inj h⟩

theorem exists_of_bind_eq_ok {ε α β : Type} {x : Except ε α} {f : α → Except ε β} {b : β}
    (h : x >>= f = .ok b) : ∃ a, x = .ok a ∧ f a = .ok b := by
  cases x with
  | error e => simp [bind, Except.bind] at h
  | ok a => exact ⟨a, rfl, h⟩

theorem eq_some_of_found {α : Type} {o : Option α} {a : α} (h : found o = .ok a) : o = some a := by
  cases o with
  | none => simp [found] at h
  | some b => simpa [found] using h

variable {fuel levels : ℕ} {t rest : Text}

theorem fits_of_readNumber {j : Json} (h : readNumber t = some (j, rest)) : Fits levels j := by
  rcases exists_of_readNumber h with ⟨x, rfl⟩ | ⟨k, rfl, hk⟩
  · exact .float x
  · exact .int hk

theorem fits_of_readWord {j : Json} (h : readWord t = some (j, rest)) : Fits levels j := by
  simp only [readWord, Option.map_eq_some_iff] at h
  obtain ⟨⟨word, j'⟩, hfind, heq⟩ := h
  obtain ⟨rfl, -⟩ := Prod.mk.inj heq
  have hmem := List.mem_of_find?_eq_some hfind
  simp only [words, List.mem_cons, Prod.mk.injEq, List.not_mem_nil, or_false] at hmem
  rcases hmem with ⟨-, rfl⟩ | ⟨-, rfl⟩ | ⟨-, rfl⟩ | ⟨-, rfl⟩ | ⟨-, rfl⟩ | ⟨-, rfl⟩
  exacts [.null, .bool _, .bool _, .float _, .float _, .float _]

theorem fits_of_readValue_succ {j : Json}
    (ihItems : ∀ {levels t items rest}, readItems fuel levels t = .ok (items, rest) →
      ∀ j ∈ items, Fits levels j)
    (ihMembers : ∀ {levels t pairs rest}, readMembers fuel levels t = .ok (pairs, rest) →
      ∀ m ∈ pairs, Fits levels m.2)
    (h : readValue (fuel + 1) levels t = .ok (j, rest)) : Fits levels j := by
  rcases t with - | ⟨c, t⟩
  · simp [readValue] at h
  rw [readValue.eq_def] at h
  simp only at h
  split at h
  · -- an array
    rcases levels with - | levels
    · simp at h
    simp only at h
    split at h
    · obtain ⟨rfl, -⟩ := Prod.mk.inj (Except.ok.inj h)
      exact .arr (by simp)
    · obtain ⟨⟨items, _⟩, hread, heq⟩ := exists_of_map_eq_ok h
      obtain ⟨rfl, -⟩ := Prod.mk.inj heq
      exact .arr (ihItems hread)
  split at h
  · -- an object
    rcases levels with - | levels
    · simp at h
    simp only at h
    split at h
    · obtain ⟨rfl, -⟩ := Prod.mk.inj (Except.ok.inj h)
      exact .obj (by simp) (by simp)
    · obtain ⟨⟨pairs, _⟩, hread, heq⟩ := exists_of_map_eq_ok h
      obtain ⟨rfl, -⟩ := Prod.mk.inj heq
      exact .obj (Members.nodup_ofPairs pairs) fun m hm =>
        ihMembers hread m (Members.mem_of_mem_ofPairs hm)
  split at h
  · obtain ⟨⟨s, _⟩, -, heq⟩ := Option.map_eq_some_iff.1 (eq_some_of_found h)
    obtain ⟨rfl, -⟩ := Prod.mk.inj heq
    exact .str s
  · rcases Option.or_eq_some_iff.1 (eq_some_of_found h) with hword | ⟨-, hnumber⟩
    · exact fits_of_readWord hword
    · exact fits_of_readNumber hnumber

theorem fits_of_readItems_succ {items : List Json}
    (ihValue : ∀ {levels t j rest}, readValue fuel levels t = .ok (j, rest) → Fits levels j)
    (ihItems : ∀ {levels t items rest}, readItems fuel levels t = .ok (items, rest) →
      ∀ j ∈ items, Fits levels j)
    (h : readItems (fuel + 1) levels t = .ok (items, rest)) : ∀ j ∈ items, Fits levels j := by
  rw [readItems] at h
  obtain ⟨⟨item, t'⟩, hitem, h⟩ := exists_of_bind_eq_ok h
  simp only at h
  split at h
  · obtain ⟨rfl, -⟩ := Prod.mk.inj (Except.ok.inj h)
    simpa using ihValue hitem
  · obtain ⟨⟨more, _⟩, hmore, h⟩ := exists_of_bind_eq_ok h
    obtain ⟨rfl, -⟩ := Prod.mk.inj (Except.ok.inj h)
    exact List.forall_mem_cons.2 ⟨ihValue hitem, ihItems hmore⟩
  · simp at h

theorem fits_of_readMembers_succ {pairs : Members}
    (ihValue : ∀ {levels t j rest}, readValue fuel levels t = .ok (j, rest) → Fits levels j)
    (ihMembers : ∀ {levels t pairs rest}, readMembers fuel levels t = .ok (pairs, rest) →
      ∀ m ∈ pairs, Fits levels m.2)
    (h : readMembers (fuel + 1) levels t = .ok (pairs, rest)) : ∀ m ∈ pairs, Fits levels m.2 := by
  rcases t with - | ⟨c, t⟩
  · simp [readMembers] at h
  rw [readMembers.eq_def] at h
  simp only at h
  split at h
  swap
  · simp at h
  obtain ⟨⟨key, t₁⟩, -, h⟩ := exists_of_bind_eq_ok h
  simp only at h
  split at h
  swap
  · simp at h
  obtain ⟨⟨value, t₂⟩, hvalue, h⟩ := exists_of_bind_eq_ok h
  simp only at h
  split at h
  · obtain ⟨rfl, -⟩ := Prod.mk.inj (Except.ok.inj h)
    simpa using ihValue hvalue
  · obtain ⟨⟨more, _⟩, hmore, h⟩ := exists_of_bind_eq_ok h
    obtain ⟨rfl, -⟩ := Prod.mk.inj (Except.ok.inj h)
    exact List.forall_mem_cons.2 ⟨ihValue hvalue, ihMembers hmore⟩
  · simp at h

theorem fits_of_readValue_fuel : ∀ fuel : ℕ,
    (∀ {levels t j rest}, readValue fuel levels t = .ok (j, rest) → Fits levels j) ∧
    (∀ {levels t items rest}, readItems fuel levels t = .ok (items, rest) →
      ∀ j ∈ items, Fits levels j) ∧
    (∀ {levels t pairs rest}, readMembers fuel levels t = .ok (pairs, rest) →
      ∀ m ∈ pairs, Fits levels m.2) := by
  intro fuel
  induction fuel with
  | zero => simp [readValue, readItems, readMembers]
  | succ fuel ih =>
    obtain ⟨ihValue, ihItems, ihMembers⟩ := ih
    exact ⟨fits_of_readValue_succ @ihItems @ihMembers, fits_of_readItems_succ @ihValue @ihItems,
      fits_of_readMembers_succ @ihValue @ihMembers⟩

/-- **What is read can be read back.** -/
theorem fits_of_parseWithin {j : Json} (h : parseWithin levels t = .ok j) : Fits levels j := by
  unfold parseWithin at h
  split at h
  · rename_i j' rest hread
    split at h
    · obtain rfl := Except.ok.inj h
      exact (fits_of_readValue_fuel _).1 hread
    · simp at h
  · simp at h

end Read

/-! ### Characters -/

/-- A line feed or a printable ASCII character. -/
def isPlain (c : Char) : Bool := c == '\n' || (decide (32 ≤ c.toNat) && decide (c.toNat < 127))

theorem isPlain_of_isNumeralChar {c : Char} (hc : Numeral.isNumeralChar c = true) :
    isPlain c = true := by
  obtain ⟨hlow, hhigh, -⟩ := Numeral.bounds_of_isNumeralChar hc
  simp only [isPlain, Bool.or_eq_true, Bool.and_eq_true, decide_eq_true_eq]
  omega

theorem isPlain_hexDigit {n : ℕ} (hn : n < 16) : isPlain (hexDigit n) = true := by
  interval_cases n <;> rfl

theorem isRun_unitText (u : UInt16) : IsRun isPlain (unitText u) := by
  unfold unitText
  split_ifs with h34 h92 h10 h13 h9 h12 h8 hplain
  iterate 7 · simp [isPlain]
  · have hlow : 32 ≤ u.toNat := hplain.1
    have hhigh : u.toNat < 127 := hplain.2
    have htoNat := toNat_ofNat_of_lt hhigh
    simpa [isPlain, htoNat] using .inr ⟨hlow, hhigh⟩
  · have hdigit := fun n => isPlain_hexDigit (n := n % 16) (Nat.mod_lt n (by decide))
    rw [hexadecimal_four]
    simp [hdigit]
    decide

theorem isRun_stringText (s : Units) : IsRun isPlain (stringText s) := by
  unfold stringText
  simp only [isRun_cons, isRun_append]
  refine ⟨rfl, fun c hc => ?_, rfl, isRun_nil⟩
  obtain ⟨u, -, hcu⟩ := List.mem_flatMap.1 hc
  exact isRun_unitText u c hcu

theorem isRun_intText (n : ℤ) : IsRun isPlain (intText n) :=
  wholeNumeral_text n ▸ (wholeNumeral_isWellFormed n).isRun_text.imp fun _ => isPlain_of_isNumeralChar

theorem isRun_floatText (x : Binary64) : IsRun isPlain (floatText x) := by
  cases x with
  | nan => exact (by simp [isPlain] : IsRun isPlain ['N', 'a', 'N'])
  | infinite s =>
    cases s with
    | false => exact (by simp [isPlain] : IsRun isPlain "Infinity".toList)
    | true => exact (by simp [isPlain] : IsRun isPlain "-Infinity".toList)
  | finite s u hu =>
    have hx : (Binary64.finite s u hu).isFinite = true := rfl
    obtain ⟨n, hwf, htext, -⟩ := Binary64.exists_numeral_toText hx
    rw [floatText.eq_def]
    simp only
    rw [← htext]
    exact hwf.isRun_text.imp fun _ => isPlain_of_isNumeralChar

theorem isRun_lineBreak_isPlain (l : Layout) (depth : ℕ) : IsRun isPlain (l.lineBreak depth) := by
  cases l with
  | oneLine => simp [Layout.lineBreak]
  | manyLines =>
    refine isRun_cons.2 ⟨rfl, fun c hc => ?_⟩
    rw [List.eq_of_mem_replicate hc]
    rfl

theorem isRun_separator (l : Layout) (depth : ℕ) : IsRun isPlain (l.separator depth) := by
  cases l with
  | oneLine => simp [Layout.separator, isPlain]
  | manyLines => exact isRun_cons.2 ⟨rfl, isRun_lineBreak_isPlain .manyLines depth⟩

mutual

/-- **A value is written in plain characters.** -/
theorem isRun_write (l : Layout) (depth : ℕ) : ∀ (j : Json) {rest : Text}, IsRun isPlain rest →
    IsRun isPlain (write l depth j rest)
  | null, _, hr => by simpa [write, isPlain] using hr
  | bool true, _, hr => by simpa [write, isPlain] using hr
  | bool false, _, hr => by simpa [write, isPlain] using hr
  | int n, _, hr => isRun_append.2 ⟨isRun_intText n, hr⟩
  | float x, _, hr => isRun_append.2 ⟨isRun_floatText x, hr⟩
  | str s, _, hr => isRun_append.2 ⟨isRun_stringText s, hr⟩
  | arr [], _, hr => by simpa [write, isPlain] using hr
  | arr (item :: more), rest, hr => by
    have hclose : IsRun isPlain (l.lineBreak depth ++ ']' :: rest) :=
      isRun_append.2 ⟨isRun_lineBreak_isPlain l depth, isRun_cons.2 ⟨rfl, hr⟩⟩
    exact isRun_cons.2 ⟨rfl, isRun_append.2 ⟨isRun_lineBreak_isPlain l _,
      isRun_write l _ item (isRun_writeItems l _ more hclose)⟩⟩
  | obj [], _, hr => by simpa [write, isPlain] using hr
  | obj ((key, value) :: more), rest, hr => by
    have hclose : IsRun isPlain (l.lineBreak depth ++ '}' :: rest) :=
      isRun_append.2 ⟨isRun_lineBreak_isPlain l depth, isRun_cons.2 ⟨rfl, hr⟩⟩
    have hvalue := isRun_write l (depth + 1) value (isRun_writeMembers l (depth + 1) more hclose)
    exact isRun_cons.2 ⟨rfl, isRun_append.2 ⟨isRun_lineBreak_isPlain l _, isRun_append.2
      ⟨isRun_stringText key, isRun_cons.2 ⟨rfl, isRun_cons.2 ⟨rfl, hvalue⟩⟩⟩⟩⟩

theorem isRun_writeItems (l : Layout) (depth : ℕ) : ∀ (items : List Json) {rest : Text},
    IsRun isPlain rest → IsRun isPlain (writeItems l depth items rest)
  | [], _, hr => hr
  | item :: more, _, hr => isRun_append.2 ⟨isRun_separator l depth,
      isRun_write l depth item (isRun_writeItems l depth more hr)⟩

theorem isRun_writeMembers (l : Layout) (depth : ℕ) : ∀ (ms : List (Units × Json)) {rest : Text},
    IsRun isPlain rest → IsRun isPlain (writeMembers l depth ms rest)
  | [], _, hr => hr
  | (key, value) :: more, _, hr => by
    have hvalue := isRun_write l depth value (isRun_writeMembers l depth more hr)
    exact isRun_append.2 ⟨isRun_separator l depth, isRun_append.2
      ⟨isRun_stringText key, isRun_cons.2 ⟨rfl, isRun_cons.2 ⟨rfl, hvalue⟩⟩⟩⟩

end

theorem unifyNewlines_of_isRun {t : Text} (ht : IsRun isPlain t) : t.unifyNewlines = t := by
  induction t with
  | nil => rfl
  | cons c t ih =>
    obtain ⟨hc, ht⟩ := isRun_cons.1 ht
    have hne : c ≠ '\r' := by
      rintro rfl
      exact absurd hc (by decide)
    simp [unifyNewlines, hne, ih ht]

/-- Reading a file leaves a written value as it is. -/
theorem unifyNewlines_indented (j : Json) : unifyNewlines j.indented = j.indented :=
  unifyNewlines_of_isRun (isRun_write .manyLines 0 j isRun_nil)

/-! ### Setting members -/

section Members

variable {levels : ℕ} {ms : Members} {key : Units} {value : Json}

theorem Fits.members (h : Fits (levels + 1) (.obj ms)) :
    (ms.map Prod.fst).Nodup ∧ ∀ m ∈ ms, Fits levels m.2 := by
  cases h with
  | obj hkeys hms => exact ⟨hkeys, hms⟩

theorem Fits.get? (h : Fits (levels + 1) (.obj ms)) (hget : ms.get? key = some value) :
    Fits levels value := by
  obtain ⟨before, behind, hms, -⟩ := List.lookup_eq_some_iff.1 hget
  exact h.members.2 (key, value) (by simp [hms])

theorem Fits.put (h : Fits (levels + 1) (.obj ms)) (hv : Fits levels value) (key : Units) :
    Fits (levels + 1) (.obj (Members.put key value ms)) := by
  obtain ⟨hkeys, hms⟩ := h.members
  refine .obj (Members.nodup_put hkeys) fun m hm => ?_
  rcases Members.mem_of_mem_put hm with rfl | hm
  · exact hv
  · exact hms m hm

theorem Fits.putDefault (h : Fits (levels + 1) (.obj ms)) (hv : Fits levels value) (key : Units) :
    Fits (levels + 1) (.obj (ms.putDefault key value)) := by
  unfold Members.putDefault
  split
  · exact h
  · rename_i hnone
    rw [← Members.put_of_not_mem (Members.not_mem_of_get?_eq_none hnone)]
    exact h.put hv key

theorem Fits.filter (h : Fits (levels + 1) (.obj ms)) (p : Units × Json → Bool) :
    Fits (levels + 1) (.obj (ms.filter p)) := by
  obtain ⟨hkeys, hms⟩ := h.members
  exact .obj (hkeys.sublist (List.filter_sublist.map _)) fun m hm => hms m (List.mem_filter.1 hm).1

end Members

end EquationSheet.Json
