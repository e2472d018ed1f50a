import EquationSheet.Proofs.JsonTokens

/-!
# JSON texts read back

A value is read back from its text, on one line or on many, if its integers are short, its objects
hold each key once, and it is nested no deeper than a reader goes.

* `Members.keys_put`: setting a member adds its key at the end, unless the key is there.
* `Fits`: the values that can be read back, by the levels they may be nested on.
* `readsBack`: what is written in front of a text is read back up to there, by the reader's own
  recursion.
* `parseWithin_write`, `parseWithin_indented`: a whole text is read back, on levels enough for it.
-/

namespace EquationSheet

open Text

/-! ### Members -/

namespace Members

variable {ms : Members} {key : Units} {value : Json} {m : Units × Json}

theorem put_of_not_mem (h : key ∉ ms.map Prod.fst) : put key value ms = ms ++ [(key, value)] := by
  induction ms with
  | nil => rfl
  | cons m ms ih =>
    simp only [List.map_cons, List.mem_cons, not_or] at h
    rw [put, if_neg (Ne.symm h.1), ih h.2, List.cons_append]

theorem keys_put (key : Units) (value : Json) (ms : Members) : (put key value ms).map Prod.fst =
    if key ∈ ms.map Prod.fst then ms.map Prod.fst else ms.map Prod.fst ++ [key] := by
  induction ms with
  | nil => rfl
  | cons m ms ih =>
    obtain ⟨k, v⟩ := m
    by_cases hk : k = key
    · simp [put, hk]
    · rw [put, if_neg hk, List.map_cons, ih]
      split <;> simp_all [eq_comm]

theorem nodup_put (h : (ms.map Prod.fst).Nodup) : ((put key value ms).map Prod.fst).Nodup := by
  rw [keys_put]
  split
  · exact h
  · rename_i hnew
    refine List.nodup_append.2 ⟨h, by simp, fun k hk k' hk' => ?_⟩
    rintro rfl
    exact hnew (List.mem_singleton.1 hk' ▸ hk)

theorem mem_of_mem_put (h : m ∈ put key value ms) : m = (key, value) ∨ m ∈ ms := by
  induction ms with
  | nil => simpa [put] using h
  | cons m' ms ih =>
    obtain ⟨k, v⟩ := m'
    rw [put] at h
    split at h
    · rename_i hk
      rcases List.mem_cons.1 h with rfl | hm
      · exact .inl (by rw [hk])
      · exact .inr (List.mem_cons_of_mem _ hm)
    · rcases List.mem_cons.1 h with rfl | hm
      · exact .inr List.mem_cons_self
      · exact (ih hm).imp_right (List.mem_cons_of_mem _)

theorem not_mem_of_get?_eq_none (h : ms.get? key = none) : key ∉ ms.map Prod.fst := by
  intro hmem
  obtain ⟨m, hm, rfl⟩ := List.mem_map.1 hmem
  simpa using List.lookup_eq_none_iff.1 h m hm

theorem nodup_ofPairs (pairs : List (Units × Json)) : ((ofPairs pairs).map Prod.fst).Nodup := by
  unfold ofPairs
  exact List.foldlRecOn (motive := fun ms : Members => (ms.map Prod.fst).Nodup) pairs _ (by simp)
    fun ms h m _ => nodup_put h

theorem mem_of_mem_ofPairs {pairs : List (Units × Json)} (h : m ∈ ofPairs pairs) : m ∈ pairs := by
  have hall : ∀ m ∈ ofPairs pairs, m ∈ pairs := by
    unfold ofPairs
    refine List.foldlRecOn (motive := fun ms : Members => ∀ m ∈ ms, m ∈ pairs) pairs _ (by simp)
      fun ms h m' hm' m hm => ?_
    rcases mem_of_mem_put hm with rfl | hm
    · exact hm'
    · exact h m hm
  exact hall m h

/-- Pairs without repeated keys are members as they stand. -/
theorem ofPairs_of_nodup {pairs : List (Units × Json)} (h : (pairs.map Prod.fst).Nodup) :
    ofPairs pairs = pairs := by
  have happend : ∀ (pairs : List (Units × Json)) (ms : Members),
      ((ms ++ pairs).map Prod.fst).Nodup →
        pairs.foldl (fun ms m => put m.1 m.2 ms) ms = ms ++ pairs := by
    intro pairs
    induction pairs with
    | nil => simp
    | cons m pairs ih =>
      obtain ⟨key, value⟩ := m
      intro ms h
      have hnew : key ∉ ms.map Prod.fst := by
        rw [List.map_append, List.nodup_append] at h
        exact fun hmem => h.2.2 _ hmem _ (by simp) rfl
      simp only [List.foldl_cons, put_of_not_mem hnew]
      rw [ih _ (by simpa using h), List.append_assoc, List.singleton_append]
  simpa [ofPairs] using happend pairs [] (by simpa using h)

end Members

namespace Json

/-- The value can be read back if arrays and objects may be nested on so many levels. -/
inductive Fits : ℕ → Json → Prop
  | null {levels} : Fits levels null
  | bool {levels} (b : Bool) : Fits levels (bool b)
  | int {levels} {n : ℤ} : IsShort n → Fits levels (int n)
  | float {levels} (x : Binary64) : Fits levels (float x)
  | str {levels} (s : Units) : Fits levels (str s)
  | arr {levels} {items : List Json} : (∀ j ∈ items, Fits levels j) → Fits (levels + 1) (arr items)
  | obj {levels} {ms : Members} : (ms.map Prod.fst).Nodup → (∀ m ∈ ms, Fits levels m.2) →
      Fits (levels + 1) (obj ms)

/-! ### Blanks -/

section Blanks

theorem skipBlanks_cons {c : Char} {t : Text} (hc : isBlank c = false) : skipBlanks (c :: t) = c :: t :=
  dropWhile_of_startsOutside (startsOutside_cons.2 hc)

theorem isRun_lineBreak (l : Layout) (depth : ℕ) : IsRun isBlank (l.lineBreak depth) := by
  cases l with
  | oneLine => simp [Layout.lineBreak]
  | manyLines =>
    refine isRun_cons.2 ⟨rfl, fun c hc => ?_⟩
    rw [List.eq_of_mem_replicate hc]
    rfl

theorem skipBlanks_append {blanks : Text} (h : IsRun isBlank blanks) (t : Text) :
    skipBlanks (blanks ++ t) = skipBlanks t := List.dropWhile_append_of_pos h

@[simp] theorem skipBlanks_lineBreak (l : Layout) (depth : ℕ) (t : Text) :
    skipBlanks (l.lineBreak depth ++ t) = skipBlanks t := skipBlanks_append (isRun_lineBreak l depth) t

/-- A separator is a comma and blanks. -/
theorem exists_separator_eq (l : Layout) (depth : ℕ) :
    ∃ blanks, l.separator depth = ',' :: blanks ∧ IsRun isBlank blanks := by
  cases l with
  | oneLine => exact ⟨[' '], rfl, by simp [isBlank]⟩
  | manyLines => exact ⟨_, rfl, isRun_lineBreak .manyLines depth⟩

end Blanks

/-! ### Tokens as values -/

section Tokens

variable {fuel levels : ℕ} {t rest : Text}

theorem readValue_token {c : Char} (harr : c ≠ '[') (hobj : c ≠ '{') (hstr : c ≠ '"') :
    readValue (fuel + 1) levels (c :: t) = found ((readWord (c :: t)).or (readNumber (c :: t))) := by
  rw [readValue.eq_def]
  simp only [if_neg harr, if_neg hobj, if_neg hstr]

/-- A word of the grammar is read as a value. -/
theorem readValue_word (word : Text) {j : Json} (h : (word, j) ∈ words) :
    readValue (fuel + 1) levels (word ++ rest) = .ok (j, rest) := by
  simp only [words, List.mem_cons, Prod.mk.injEq, List.not_mem_nil, or_false] at h
  rcases h with ⟨rfl, rfl⟩ | ⟨rfl, rfl⟩ | ⟨rfl, rfl⟩ | ⟨rfl, rfl⟩ | ⟨rfl, rfl⟩ | ⟨rfl, rfl⟩
  all_goals simp [readValue_token, readWord, words, List.find?, List.isPrefixOf, found]

/-- A number is read as a value. -/
theorem readValue_number (ht : StartsNumber t) :
    readValue (fuel + 1) levels t = found (readNumber t) := by
  have hword := ht.readWord_eq_none
  obtain ⟨d, ds, hd, ht⟩ := ht
  have hother : ∀ {c : Char}, c.isDigit = false → d ≠ c := by
    rintro _ hc rfl
    simp [hd] at hc
  rcases ht with rfl | rfl
  · rw [readValue_token (hother (by decide)) (hother (by decide)) (hother (by decide)), hword]
    rfl
  · rw [readValue_token (by decide) (by decide) (by decide), hword]
    rfl

theorem readValue_string (s : Units) :
    readValue (fuel + 1) levels (stringText s ++ rest) = .ok (str s, rest) := by
  have hs := readString_units s rest
  rw [readValue.eq_def]
  simp [stringText, hs, found]

end Tokens

/-! ### First characters -/

section Starts

variable {l : Layout} {depth : ℕ} {rest : Text}

/-- The text begins with a character that is no blank and closes no array. -/
def StartsValue (t : Text) : Prop := ∃ c t', t = c :: t' ∧ isBlank c = false ∧ c ≠ ']'

theorem StartsNumber.startsValue {t : Text} (ht : StartsNumber t) : StartsValue t := by
  obtain ⟨d, ds, hd, rfl | rfl⟩ := ht
  · have hother : ∀ {c : Char}, c.isDigit = false → d ≠ c := by
      rintro _ hc rfl
      simp [hd] at hc
    refine ⟨d, ds, rfl, ?_, hother rfl⟩
    simp [isBlank, hother (c := ' ') rfl, hother (c := '\t') rfl, hother (c := '\n') rfl,
      hother (c := '\r') rfl]
  · exact ⟨'-', d :: ds, rfl, rfl, by decide⟩

theorem startsValue_floatText (x : Binary64) : StartsValue (floatText x ++ rest) := by
  cases x with
  | nan => exact ⟨_, _, rfl, rfl, by decide⟩
  | infinite s => cases s <;> exact ⟨_, _, rfl, rfl, by decide⟩
  | finite s u hu => exact ((startsNumber_toText rfl).append rest).startsValue

theorem startsValue_write (l : Layout) (depth : ℕ) (rest : Text) (j : Json) :
    StartsValue (write l depth j rest) := by
  rcases j with - | b | n | x | s | items | ms
  · exact ⟨_, _, rfl, rfl, by decide⟩
  · cases b <;> exact ⟨_, _, rfl, rfl, by decide⟩
  · exact ((startsNumber_intText n).append rest).startsValue
  · exact startsValue_floatText x
  · exact ⟨_, _, rfl, rfl, by decide⟩
  · cases items <;> exact ⟨_, _, rfl, rfl, by decide⟩
  · rcases ms with - | ⟨⟨k, v⟩, ms⟩ <;> exact ⟨_, _, rfl, rfl, by decide⟩

@[simp] theorem skipBlanks_write (j : Json) :
    skipBlanks (write l depth j rest) = write l depth j rest := by
  obtain ⟨c, t, heq, hc, -⟩ := startsValue_write l depth rest j
  rw [heq, skipBlanks_cons hc]

theorem stops_cons {c : Char} (hdigit : c.isDigit = false) (hpoint : (c == '.') = false)
    (hexponent : Numeral.isExponentMarker c = false) (t : Text) : Numeral.Stops (c :: t) :=
  ⟨startsOutside_cons.2 hdigit, startsOutside_cons.2 hpoint, by
    simp [Numeral.scanExponent, hexponent]⟩

theorem stops_lineBreak {t : Text} (ht : Numeral.Stops t) : Numeral.Stops (l.lineBreak depth ++ t) := by
  cases l with
  | oneLine => exact ht
  | manyLines => exact stops_cons rfl rfl rfl _

theorem stops_separator (t : Text) : Numeral.Stops (l.separator depth ++ t) := by
  obtain ⟨blanks, h, -⟩ := exists_separator_eq l depth
  rw [h]
  exact stops_cons rfl rfl rfl _

theorem stops_writeItems (l : Layout) (depth : ℕ) (items : List Json) (hrest : Numeral.Stops rest) :
    Numeral.Stops (writeItems l depth items rest) := by
  cases items with
  | nil => exact hrest
  | cons item more => exact stops_separator _

theorem stops_writeMembers (l : Layout) (depth : ℕ) (ms : Members) (hrest : Numeral.Stops rest) :
    Numeral.Stops (writeMembers l depth ms rest) := by
  cases ms with
  | nil => exact hrest
  | cons m more => exact stops_separator _

end Starts

/-! ### Lengths -/

section Lengths

variable (l : Layout) (depth : ℕ) (rest : Text)

theorem length_lt_write (j : Json) : rest.length < (write l depth j rest).length := by
  have h := write_append l depth j [] rest
  obtain ⟨c, t, heq, -⟩ := startsValue_write l depth [] j
  rw [List.nil_append, heq] at h
  simp [h]

theorem length_le_writeItems (items : List Json) :
    rest.length ≤ (writeItems l depth items rest).length := by
  have h := writeItems_append l depth items [] rest
  rw [List.nil_append] at h
  simp [h]

theorem length_le_writeMembers (ms : Members) :
    rest.length ≤ (writeMembers l depth ms rest).length := by
  have h := writeMembers_append l depth ms [] rest
  rw [List.nil_append] at h
  simp [h]

end Lengths

/-! ### Reading back -/

/-- What a reader with so much fuel reads back in front of a text. The text in front costs no more
fuel than it is long. -/
structure ReadsBack (l : Layout) (fuel : ℕ) : Prop where
  value : ∀ (depth : ℕ) {levels : ℕ} {j : Json} {rest : Text}, Fits levels j → Numeral.Stops rest →
    (write l depth j rest).length ≤ fuel + rest.length →
    readValue fuel levels (write l depth j rest) = .ok (j, rest)
  items : ∀ (depth outer : ℕ) (rest : Text) {levels : ℕ} {item : Json} {more : List Json},
    (∀ j ∈ item :: more, Fits levels j) →
    (write l depth item (writeItems l depth more (l.lineBreak outer ++ ']' :: rest))).length ≤
      fuel + rest.length →
    readItems fuel levels (write l depth item
      (writeItems l depth more (l.lineBreak outer ++ ']' :: rest))) = .ok (item :: more, rest)
  members : ∀ (depth outer : ℕ) (rest : Text) {levels : ℕ} {key : Units} {value : Json}
    {more : Members},
    (∀ m ∈ (key, value) :: more, Fits levels m.2) →
    (stringText key ++ ':' :: ' ' :: write l depth value
      (writeMembers l depth more (l.lineBreak outer ++ '}' :: rest))).length ≤ fuel + rest.length →
    readMembers fuel levels (stringText key ++ ':' :: ' ' :: write l depth value
      (writeMembers l depth more (l.lineBreak outer ++ '}' :: rest))) =
        .ok ((key, value) :: more, rest)

section Steps

variable {l : Layout} {fuel levels depth outer : ℕ} {rest : Text}

theorem readValue_float (x : Binary64) (hr : Numeral.Stops rest) :
    readValue (fuel + 1) levels (floatText x ++ rest) = .ok (float x, rest) := by
  cases x with
  | nan => exact readValue_word "NaN".toList (by simp [words])
  | infinite s =>
    cases s with
    | false => exact readValue_word "Infinity".toList (by simp [words])
    | true => exact readValue_word "-Infinity".toList (by simp [words])
  | finite s u hu =>
    have hx : (Binary64.finite s u hu).isFinite = true := rfl
    rw [floatText.eq_def]
    simp only
    rw [readValue_number ((startsNumber_toText hx).append rest), readNumber_toText hx hr]
    rfl

theorem ReadsBack.value_succ (ih : ReadsBack l fuel) {j : Json} (hj : Fits levels j)
    (hr : Numeral.Stops rest) (hlen : (write l depth j rest).length ≤ fuel + 1 + rest.length) :
    readValue (fuel + 1) levels (write l depth j rest) = .ok (j, rest) := by
  cases hj with
  | null => exact readValue_word "null".toList (by simp [words])
  | bool b =>
    cases b with
    | false => exact readValue_word "false".toList (by simp [words])
    | true => exact readValue_word "true".toList (by simp [words])
  | @int _ n hn =>
    refine (readValue_number ((startsNumber_intText n).append rest)).trans ?_
    rw [readNumber_intText hn hr]
    rfl
  | float x => exact readValue_float x hr
  | str s => exact readValue_string s
  | @arr levels items hitems =>
    cases items with
    | nil => rfl
    | cons item more =>
      obtain ⟨c, t, heq, hblank, hclose⟩ := startsValue_write l (depth + 1)
        (writeItems l (depth + 1) more (l.lineBreak depth ++ ']' :: rest)) item
      simp only [write, List.length_cons, List.length_append] at hlen
      have hread := ih.items (depth + 1) depth rest hitems (by omega)
      rw [readValue.eq_def]
      simp only [write, heq, skipBlanks_lineBreak, skipBlanks_cons hblank, if_true]
      rw [heq] at hread
      split
      · rename_i h
        exact absurd (List.cons.inj h).1 hclose
      · rw [hread]
        rfl
  | @obj levels ms hkeys hms =>
    cases ms with
    | nil => rfl
    | cons m more =>
      obtain ⟨key, value⟩ := m
      simp only [write, List.length_cons, List.length_append] at hlen
      have hread := ih.members (depth + 1) depth rest hms
        (by simp only [List.length_cons, List.length_append]; omega)
      obtain ⟨t, heq⟩ : ∃ t, stringText key ++ ':' :: ' ' :: write l (depth + 1) value
          (writeMembers l (depth + 1) more (l.lineBreak depth ++ '}' :: rest)) = '"' :: t :=
        ⟨_, rfl⟩
      have hquote : skipBlanks ('"' :: t) = '"' :: t := skipBlanks_cons rfl
      rw [readValue.eq_def]
      simp only [write, heq, skipBlanks_lineBreak, hquote, if_true]
      rw [heq] at hread
      simp [hread, Except.map, Members.ofPairs_of_nodup hkeys]

theorem ReadsBack.items_succ (ih : ReadsBack l fuel) {item : Json} {more : List Json}
    (hitems : ∀ j ∈ item :: more, Fits levels j)
    (hlen : (write l depth item (writeItems l depth more
      (l.lineBreak outer ++ ']' :: rest))).length ≤ fuel + 1 + rest.length) :
    readItems (fuel + 1) levels (write l depth item
      (writeItems l depth more (l.lineBreak outer ++ ']' :: rest))) = .ok (item :: more, rest) := by
  have hclose : Numeral.Stops (l.lineBreak outer ++ ']' :: rest) :=
    stops_lineBreak (stops_cons rfl rfl rfl _)
  have hbehind := length_le_writeItems l depth (l.lineBreak outer ++ ']' :: rest) more
  simp only [List.length_append, List.length_cons] at hbehind
  have hitem := ih.value depth (hitems item List.mem_cons_self)
    (stops_writeItems l depth more hclose) (by omega)
  rw [readItems, hitem]
  simp only [bind, Except.bind, pure, Except.pure]
  cases more with
  | nil =>
    have hbracket : skipBlanks (']' :: rest) = ']' :: rest := skipBlanks_cons rfl
    simp only [writeItems, skipBlanks_lineBreak, hbracket]
  | cons next more =>
    obtain ⟨blanks, hseparator, hblanks⟩ := exists_separator_eq l depth
    have hfront := length_lt_write l depth
      (writeItems l depth (next :: more) (l.lineBreak outer ++ ']' :: rest)) item
    simp only [writeItems, hseparator, List.cons_append, List.length_cons, List.length_append]
      at hlen hfront
    have hnext := ih.items depth outer rest
      (fun j hj => hitems j (List.mem_cons_of_mem _ hj)) (by omega)
    have hcomma : ∀ t, skipBlanks (',' :: t) = ',' :: t := fun _ => skipBlanks_cons rfl
    simp only [writeItems, hseparator, List.cons_append, hcomma, skipBlanks_append hblanks,
      skipBlanks_write, hnext]

theorem ReadsBack.members_succ (ih : ReadsBack l fuel) {key : Units} {value : Json} {more : Members}
    (hms : ∀ m ∈ (key, value) :: more, Fits levels m.2)
    (hlen : (stringText key ++ ':' :: ' ' :: write l depth value
      (writeMembers l depth more (l.lineBreak outer ++ '}' :: rest))).length ≤
        fuel + 1 + rest.length) :
    readMembers (fuel + 1) levels (stringText key ++ ':' :: ' ' :: write l depth value
      (writeMembers l depth more (l.lineBreak outer ++ '}' :: rest))) =
        .ok ((key, value) :: more, rest) := by
  have hclose : Numeral.Stops (l.lineBreak outer ++ '}' :: rest) :=
    stops_lineBreak (stops_cons rfl rfl rfl _)
  have hbehind := length_le_writeMembers l depth (l.lineBreak outer ++ '}' :: rest) more
  simp only [List.length_append, List.length_cons] at hbehind hlen
  have hfits : Fits levels value := hms (key, value) List.mem_cons_self
  have hvalue := ih.value depth hfits
    (stops_writeMembers l depth more hclose) (by omega)
  have hkey : ∀ t, readString (key.flatMap unitText ++ ('"' :: t)) = some (key, t) :=
    readString_units key
  have hcolon : ∀ t, skipBlanks (':' :: t) = ':' :: t := fun _ => skipBlanks_cons rfl
  have hspace : ∀ t, skipBlanks (' ' :: t) = skipBlanks t := fun _ => rfl
  rw [readMembers.eq_def]
  simp only [stringText, List.cons_append, List.append_assoc, List.nil_append, if_true, hkey, found,
    bind, Except.bind, pure, Except.pure, hcolon, hspace, skipBlanks_write, hvalue]
  cases more with
  | nil =>
    have hbrace : skipBlanks ('}' :: rest) = '}' :: rest := skipBlanks_cons rfl
    simp only [writeMembers, skipBlanks_lineBreak, hbrace]
  | cons next more =>
    obtain ⟨name, content⟩ := next
    obtain ⟨blanks, hseparator, hblanks⟩ := exists_separator_eq l depth
    have hfront := length_lt_write l depth
      (writeMembers l depth ((name, content) :: more) (l.lineBreak outer ++ '}' :: rest)) value
    simp only [writeMembers, hseparator, List.cons_append, List.length_cons, List.length_append]
      at hlen hfront
    have hnext := ih.members depth outer rest
      (fun m hm => hms m (List.mem_cons_of_mem _ hm))
      (by simp only [List.length_cons, List.length_append]; omega)
    have hcomma : ∀ t, skipBlanks (',' :: t) = ',' :: t := fun _ => skipBlanks_cons rfl
    have hquote : ∀ t, skipBlanks (stringText name ++ t) = stringText name ++ t := fun _ =>
      skipBlanks_cons rfl
    simp only [writeMembers, hseparator, List.cons_append, hcomma, skipBlanks_append hblanks,
      hquote, hnext]

end Steps

/-- **What is written is read back**, by induction on the fuel. -/
theorem readsBack (l : Layout) (fuel : ℕ) : ReadsBack l fuel := by
  induction fuel with
  | zero =>
    -- without fuel nothing can stand in front
    refine ⟨fun _ _ _ _ _ _ hlen => ?_, fun depth outer rest _ _ more _ hlen => ?_,
      fun depth outer rest _ _ _ more _ hlen => ?_⟩
    · exact absurd (length_lt_write l _ _ _) (by simpa using hlen)
    · have hbehind := length_le_writeItems l depth (l.lineBreak outer ++ ']' :: rest) more
      have hfront := length_lt_write l depth
        (writeItems l depth more (l.lineBreak outer ++ ']' :: rest)) ‹Json›
      simp only [List.length_append, List.length_cons] at hbehind
      omega
    · have hbehind := length_le_writeMembers l depth (l.lineBreak outer ++ '}' :: rest) more
      have hfront := length_lt_write l depth
        (writeMembers l depth more (l.lineBreak outer ++ '}' :: rest)) ‹Json›
      simp only [List.length_append, List.length_cons] at hbehind hlen
      omega
  | succ fuel ih =>
    exact ⟨fun _ => ih.value_succ, fun _ _ _ => ih.items_succ, fun _ _ _ => ih.members_succ⟩

/-- **A whole text is read back.** -/
theorem parseWithin_write (l : Layout) {levels : ℕ} {j : Json} (hj : Fits levels j) :
    parseWithin levels (j.write l 0 []) = .ok j := by
  have hread := (readsBack l (2 * (j.write l 0 []).length + 2)).value 0 hj
    ⟨startsOutside_nil, startsOutside_nil, rfl⟩ (by simp; omega)
  simp only [parseWithin, skipBlanks_write, hread]
  rfl

theorem parseWithin_indented {levels : ℕ} {j : Json} (hj : Fits levels j) :
    parseWithin levels j.indented = .ok j := parseWithin_write .manyLines hj

end Json

end EquationSheet
