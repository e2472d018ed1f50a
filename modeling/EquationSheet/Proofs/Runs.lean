import EquationSheet.Text.Trim
import Mathlib.Data.List.TakeWhile
import Mathlib.Tactic

/-!
# Runs of a character class

Scanning takes a run of a class and stops at the first code point outside it; trimming takes the
runs at both ends.

* `takeWhile_run`, `dropWhile_run`: a run in front of a text that starts outside its class.
* `trimBy_margins`: trimming takes away the margins and nothing else.
* `isTrimmed_trimBy`, `trimBy_of_isTrimmed`: the trimmed texts are the results of trimming.
-/

namespace EquationSheet.Text

variable {p : Char → Bool} {t w a b : Text}

/-- All code points are in the class. -/
def IsRun (p : Char → Bool) (t : Text) : Prop := ∀ c ∈ t, p c = true

/-- The first code point, if there is one, is outside the class. -/
def StartsOutside (p : Char → Bool) (t : Text) : Prop := ∀ c ∈ t.head?, p c = false

/-- The last code point, if there is one, is outside the class. -/
def EndsOutside (p : Char → Bool) (t : Text) : Prop := ∀ c ∈ t.getLast?, p c = false

/-- Neither end is in the class. -/
structure IsTrimmed (p : Char → Bool) (t : Text) : Prop where
  starts : StartsOutside p t
  ends : EndsOutside p t

@[simp] theorem isRun_nil : IsRun p [] := by simp [IsRun]

@[simp] theorem isRun_cons {c : Char} : IsRun p (c :: t) ↔ p c = true ∧ IsRun p t := by
  simp [IsRun]

@[simp] theorem isRun_append : IsRun p (a ++ b) ↔ IsRun p a ∧ IsRun p b := by
  simp only [IsRun, List.mem_append, or_imp, forall_and]

theorem isRun_takeWhile : IsRun p (t.takeWhile p) := fun _ => List.mem_takeWhile_imp

theorem IsRun.imp {q : Char → Bool} (h : IsRun p t) (hpq : ∀ c, p c = true → q c = true) :
    IsRun q t := fun c hc => hpq c (h c hc)

@[simp] theorem startsOutside_nil : StartsOutside p [] := by simp [StartsOutside]

@[simp] theorem startsOutside_cons {c : Char} : StartsOutside p (c :: t) ↔ p c = false := by
  simp [StartsOutside]

theorem startsOutside_append (ha : StartsOutside p a) (hb : a = [] → StartsOutside p b) :
    StartsOutside p (a ++ b) := by
  cases a with
  | nil => exact hb rfl
  | cons c a => simpa using ha

theorem startsOutside_append_left (hne : a ≠ []) :
    StartsOutside p (a ++ b) ↔ StartsOutside p a := by
  cases a with
  | nil => exact absurd rfl hne
  | cons c a => simp

theorem IsRun.startsOutside {q : Char → Bool} (h : IsRun p t) (hpq : ∀ c, p c = true → q c = false) :
    StartsOutside q t := by
  cases t with
  | nil => simp
  | cons c t => simpa using hpq c (h c List.mem_cons_self)

theorem IsRun.endsOutside {q : Char → Bool} (h : IsRun p t) (hpq : ∀ c, p c = true → q c = false) :
    EndsOutside q t := fun c hc => hpq c (h c (List.mem_of_getLast? hc))

theorem IsRun.isTrimmed {q : Char → Bool} (h : IsRun p t) (hpq : ∀ c, p c = true → q c = false) :
    IsTrimmed q t := ⟨h.startsOutside hpq, h.endsOutside hpq⟩

theorem startsOutside_dropWhile : StartsOutside p (t.dropWhile p) := by
  intro c hc
  exact head?_trimStartBy (by simpa [trimStartBy] using hc)

theorem endsOutside_iff_reverse : EndsOutside p t ↔ StartsOutside p t.reverse := by
  unfold EndsOutside StartsOutside
  rw [List.head?_reverse]

theorem isRun_reverse (h : IsRun p t) : IsRun p t.reverse := fun c hc => h c (List.mem_reverse.1 hc)

/-! ### Scanning -/

theorem takeWhile_of_startsOutside (h : StartsOutside p t) : t.takeWhile p = [] := by
  cases t with
  | nil => rfl
  | cons c t => rw [List.takeWhile_cons_of_neg (by simpa using h)]

theorem dropWhile_of_startsOutside (h : StartsOutside p t) : t.dropWhile p = t := by
  cases t with
  | nil => rfl
  | cons c t => rw [List.dropWhile_cons_of_neg (by simpa using h)]

theorem takeWhile_run (hw : IsRun p w) (ht : StartsOutside p t) : (w ++ t).takeWhile p = w := by
  rw [List.takeWhile_append_of_pos hw, takeWhile_of_startsOutside ht, List.append_nil]

theorem dropWhile_run (hw : IsRun p w) (ht : StartsOutside p t) : (w ++ t).dropWhile p = t := by
  rw [List.dropWhile_append_of_pos hw, dropWhile_of_startsOutside ht]

/-! ### Trimming -/

theorem trimStartBy_run (ha : IsRun p a) (ht : StartsOutside p t) : trimStartBy p (a ++ t) = t :=
  dropWhile_run ha ht

theorem trimEndBy_run (hb : IsRun p b) (ht : EndsOutside p t) : trimEndBy p (t ++ b) = t := by
  unfold trimEndBy
  rw [List.reverse_append, dropWhile_run (isRun_reverse hb) (endsOutside_iff_reverse.1 ht),
    List.reverse_reverse]

/-- **Trimming takes away the margins** and nothing else. -/
theorem trimBy_margins (ha : IsRun p a) (hb : IsRun p b) (hne : t ≠ []) (ht : IsTrimmed p t) :
    trimBy p (a ++ (t ++ b)) = t := by
  unfold trimBy
  rw [trimStartBy_run ha ((startsOutside_append_left hne).2 ht.starts), trimEndBy_run hb ht.ends]

theorem trimBy_of_isTrimmed (ht : IsTrimmed p t) : trimBy p t = t := by
  rcases eq_or_ne t [] with rfl | hne
  · rfl
  · simpa using trimBy_margins isRun_nil isRun_nil hne ht

theorem trimEndBy_append (p : Char → Bool) (t : Text) :
    trimEndBy p t ++ (t.reverse.takeWhile p).reverse = t := by
  unfold trimEndBy
  rw [← List.reverse_append, List.takeWhile_append_dropWhile, List.reverse_reverse]

/-- What trimming takes away are margins. -/
theorem exists_margins (p : Char → Bool) (t : Text) :
    ∃ a b, t = a ++ (trimBy p t ++ b) ∧ IsRun p a ∧ IsRun p b := by
  refine ⟨t.takeWhile p, ((trimStartBy p t).reverse.takeWhile p).reverse, ?_, isRun_takeWhile,
    isRun_reverse isRun_takeWhile⟩
  unfold trimBy
  rw [trimEndBy_append]
  exact List.takeWhile_append_dropWhile.symm

/-- **The result of trimming is trimmed.** -/
theorem isTrimmed_trimBy (p : Char → Bool) (t : Text) : IsTrimmed p (trimBy p t) := by
  constructor
  · -- what lies behind the left margin starts outside, and so does its nonempty prefix
    have hstart : StartsOutside p (trimStartBy p t) := startsOutside_dropWhile
    rcases eq_or_ne (trimBy p t) [] with h | h
    · rw [h]; simp
    · rw [← trimEndBy_append p (trimStartBy p t)] at hstart
      exact (startsOutside_append_left h).1 hstart
  · rw [endsOutside_iff_reverse]
    unfold trimBy trimEndBy
    rw [List.reverse_reverse]
    exact startsOutside_dropWhile

/-- A trimmed text in the middle leaves a trimmed text trimmed. -/
theorem IsTrimmed.splice {m n : Text} (h : IsTrimmed p (a ++ (m ++ b))) (hn : IsTrimmed p n)
    (hne : n ≠ []) : IsTrimmed p (a ++ (n ++ b)) where
  starts := by
    rcases eq_or_ne a [] with rfl | ha
    · exact (startsOutside_append_left hne).2 hn.starts
    · exact (startsOutside_append_left ha).2 ((startsOutside_append_left ha).1 h.starts)
  ends := by
    intro c hc
    rw [← List.append_assoc] at hc
    rcases eq_or_ne b [] with rfl | hb
    · rw [List.append_nil, List.getLast?_append_of_ne_nil _ hne] at hc
      exact hn.ends c hc
    · rw [List.getLast?_append_of_ne_nil _ hb] at hc
      apply h.ends c
      rwa [← List.append_assoc, List.getLast?_append_of_ne_nil _ hb]

theorem mem_of_mem_trimBy {c : Char} (h : c ∈ trimBy p t) : c ∈ t := by
  obtain ⟨a, b, ht, -, -⟩ := exists_margins p t
  rw [ht]
  exact List.mem_append_right _ (List.mem_append_left _ h)

end EquationSheet.Text
