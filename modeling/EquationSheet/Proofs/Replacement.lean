import EquationSheet.Text.Basic
import EquationSheet.Proofs.Runs

/-!
# Cutting and replacing

A text is cut at a separator, and occurrences of one text in it are replaced by another. A code
point that the replaced text does not have keeps both sides apart.

* `segments_append`: the first piece ends at the first separator.
* `replaceAll_append_cons`: a text is replaced on both sides of a code point it does not have.
* `replaceAll_prefix`: an occurrence at the start is replaced.
* `mem_replaceAll`, `isTrimmed_replaceAll`: what a replacement can bring into a text.
-/

namespace EquationSheet.Text

variable {old new t a b : Text} {c sep : Char}

/-! ### Cutting -/

theorem segments_of_not_mem (h : sep ∉ t) : segments sep t = [t] := by
  induction t with
  | nil => rfl
  | cons c t ih =>
    rw [List.mem_cons, not_or] at h
    simp only [segments, if_neg (Ne.symm h.1), ih h.2]

/-- **The first piece ends at the first separator.** -/
theorem segments_append (h : sep ∉ a) : segments sep (a ++ sep :: b) = a :: segments sep b := by
  induction a with
  | nil => simp [segments]
  | cons c a ih =>
    rw [List.mem_cons, not_or] at h
    simp only [List.cons_append, segments, if_neg (Ne.symm h.1), ih h.2]

/-! ### Replacing -/

theorem replaceFrom_append_left (first : Char) (old new : Text) (a t : Text) :
    replaceFrom first old new a.length (a ++ t) = replaceFrom first old new 0 t := by
  rw [replaceFrom_skip, List.drop_left]

/-- A text without `c` lies in front of it when it starts there. -/
theorem isPrefixOf_append_cons (h : c ∉ old) : old <+: a ++ c :: b ↔ old <+: a := by
  constructor
  · rintro ⟨r, hr⟩
    rcases List.append_eq_append_iff.1 hr with ⟨m, rfl, -⟩ | ⟨m, rfl, hm⟩
    · exact List.prefix_append _ _
    · cases m with
      | nil => simp
      | cons d m =>
        rw [List.cons_append, List.cons.injEq] at hm
        exact absurd (by simp [hm.1]) h
  · exact fun hp => hp.trans (List.prefix_append _ _)

/-- **A text is replaced on both sides** of a code point that it does not have. -/
theorem replaceAll_append_cons (h : c ∉ old) :
    replaceAll old new (a ++ c :: b) = replaceAll old new a ++ c :: replaceAll old new b := by
  cases old with
  | nil => rfl
  | cons first old =>
    unfold replaceAll
    -- the induction is on the text in front, with the code points that an occurrence still covers
    suffices hskip : ∀ skip ≤ a.length, replaceFrom first old new skip (a ++ c :: b) =
        replaceFrom first old new skip a ++ c :: replaceFrom first old new 0 b from
      hskip 0 (Nat.zero_le _)
    induction a with
    | nil =>
      intro skip hle
      obtain rfl : skip = 0 := by simpa using hle
      have hno : ¬(first :: old).isPrefixOf (c :: b) = true := by
        rw [List.isPrefixOf_iff_prefix]
        exact fun hp => absurd ((isPrefixOf_append_cons (a := []) h).1 hp) (by simp)
      simp only [List.nil_append, replaceFrom, if_neg hno]
    | cons d a ih =>
      intro skip hle
      cases skip with
      | succ skip => simpa [replaceFrom] using ih skip (by simpa using hle)
      | zero =>
        have hiff : (first :: old).isPrefixOf (d :: (a ++ c :: b)) =
            (first :: old).isPrefixOf (d :: a) := by
          rw [Bool.eq_iff_iff, List.isPrefixOf_iff_prefix, List.isPrefixOf_iff_prefix,
            ← List.cons_append, isPrefixOf_append_cons h]
        simp only [List.cons_append, replaceFrom, hiff]
        split
        · rename_i hp
          have hlen : old.length ≤ a.length := by
            simpa using (List.isPrefixOf_iff_prefix.1 hp).length_le
          rw [ih _ hlen, List.append_assoc]
        · rw [ih 0 (Nat.zero_le _), List.cons_append]

/-- An occurrence at the start is replaced. -/
theorem replaceAll_prefix (h : old ≠ []) :
    replaceAll old new (old ++ t) = new ++ replaceAll old new t := by
  cases old with
  | nil => exact absurd rfl h
  | cons first old =>
    have hp : (first :: old).isPrefixOf (first :: (old ++ t)) = true := by
      rw [List.isPrefixOf_iff_prefix]
      exact List.prefix_append _ _
    simp only [replaceAll, List.cons_append, replaceFrom, if_pos hp]
    rw [replaceFrom_append_left]

/-- In front of a run of code points that it does not begin with, nothing is replaced. -/
theorem replaceAll_run_append {p : Char → Bool} (ha : IsRun p a) (ho : StartsOutside p old) :
    replaceAll old new (a ++ t) = a ++ replaceAll old new t := by
  cases old with
  | nil => rfl
  | cons first old =>
    unfold replaceAll
    induction a with
    | nil => rfl
    | cons c a ih =>
      rw [isRun_cons] at ha
      have hno : ¬(first :: old).isPrefixOf (c :: (a ++ t)) = true := by
        rw [List.isPrefixOf_iff_prefix, List.cons_prefix_cons]
        rintro ⟨rfl, -⟩
        rw [startsOutside_cons, ha.1] at ho
        exact absurd ho (by decide)
      simp only [List.cons_append, replaceFrom, if_neg hno, ih ha.2]

theorem replaceAll_run {p : Char → Bool} (ha : IsRun p a) (ho : StartsOutside p old) :
    replaceAll old new a = a := by
  have h : replaceAll old new (a ++ []) = a ++ replaceAll old new [] := replaceAll_run_append ha ho
  rw [List.append_nil] at h
  rw [h]
  cases old <;> simp [replaceAll, replaceFrom]

/-- Where a text does not occur nothing is replaced. -/
theorem replaceAll_of_not_infix (h : ¬old <:+: t) : replaceAll old new t = t := by
  cases old with
  | nil => rfl
  | cons first old =>
    unfold replaceAll
    induction t with
    | nil => rfl
    | cons c t ih =>
      rw [List.infix_cons_iff, not_or] at h
      simp only [replaceFrom, List.isPrefixOf_iff_prefix, if_neg h.1, ih h.2]

/-! ### What a replacement brings in -/

/-- **A replacement brings in nothing but the new text.** -/
theorem mem_replaceAll (h : c ∈ replaceAll old new t) : c ∈ new ∨ c ∈ t := by
  cases old with
  | nil => exact .inr h
  | cons first old =>
    unfold replaceAll at h
    generalize (0 : Nat) = skip at h
    induction t generalizing skip with
    | nil => simp [replaceFrom] at h
    | cons d t ih =>
      cases skip with
      | succ skip => exact (ih skip h).imp_right (List.mem_cons_of_mem d)
      | zero =>
        simp only [replaceFrom] at h
        split at h
        · rcases List.mem_append.1 h with h | h
          · exact .inl h
          · exact (ih _ h).imp_right (List.mem_cons_of_mem d)
        · rcases List.mem_cons.1 h with rfl | h
          · exact .inr List.mem_cons_self
          · exact (ih _ h).imp_right (List.mem_cons_of_mem d)

theorem replaceAll_ne_nil (hnew : new ≠ []) (ht : t ≠ []) : replaceAll old new t ≠ [] := by
  cases old with
  | nil => exact ht
  | cons first old =>
    obtain ⟨c, t, rfl⟩ := List.exists_cons_of_ne_nil ht
    simp only [replaceAll, replaceFrom]
    split <;> simp [hnew]

/-- The first code point stays the first, unless the new text begins the result. -/
theorem head?_replaceAll (hnew : new ≠ []) (h : c ∈ (replaceAll old new t).head?) :
    c ∈ new.head? ∨ c ∈ t.head? := by
  cases old with
  | nil => exact .inr h
  | cons first old =>
    cases t with
    | nil => simp [replaceAll, replaceFrom] at h
    | cons d t =>
      simp only [replaceAll, replaceFrom] at h
      split at h
      · rw [List.head?_append_of_ne_nil _ hnew] at h
        exact .inl h
      · exact .inr h

/-- The last code point stays the last, unless the new text ends the result. -/
theorem getLast?_replaceAll (hnew : new ≠ []) (h : c ∈ (replaceAll old new t).getLast?) :
    c ∈ new.getLast? ∨ c ∈ t.getLast? := by
  cases old with
  | nil => exact .inr h
  | cons first old =>
    unfold replaceAll at h
    generalize (0 : Nat) = skip at h
    induction t generalizing skip with
    | nil => simp [replaceFrom] at h
    | cons d t ih =>
      have hlast : c ∈ t.getLast? → c ∈ (d :: t).getLast? := by
        intro h
        rw [Option.mem_def] at h
        rw [List.getLast?_cons, h]
        rfl
      cases skip with
      | succ skip => exact (ih skip h).imp_right hlast
      | zero =>
        simp only [replaceFrom] at h
        split at h
        · rw [List.getLast?_append, Option.mem_def, Option.or_eq_some_iff] at h
          rcases h with h | ⟨-, h⟩
          · exact (ih _ h).imp_right hlast
          · exact .inl h
        · rcases eq_or_ne t [] with rfl | ht
          · exact .inr (by simpa [replaceFrom] using h)
          · have hne : replaceAll (first :: old) new t ≠ [] := replaceAll_ne_nil hnew ht
            simp only [replaceAll] at hne
            rw [List.getLast?_cons_of_ne_nil hne] at h
            exact (ih 0 h).imp_right hlast

/-- **Replacing by a trimmed text keeps a text trimmed.** -/
theorem isTrimmed_replaceAll {p : Char → Bool} (hnew : new ≠ []) (hn : IsTrimmed p new)
    (ht : IsTrimmed p t) : IsTrimmed p (replaceAll old new t) where
  starts c hc := (head?_replaceAll hnew hc).elim (hn.starts c) (ht.starts c)
  ends c hc := (getLast?_replaceAll hnew hc).elim (hn.ends c) (ht.ends c)

end EquationSheet.Text
