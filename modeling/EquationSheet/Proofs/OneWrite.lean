import EquationSheet.Proofs.ReadBack

/-!
# One write or none

Setting a value finds the first slot of a name, makes its new text, and writes that. What can go
wrong before the write goes wrong without one, and a write that fails before it changes the file
leaves everything as it was.

* `FileLock.write_of_error`: **a write that fails early changes nothing.**
* `plan_eq_some_iff`, `plan_eq_none_iff`: the rewrite that is planned, and when none is.
* `setOne_eq_some_iff`: **a value is set** exactly if its rewrite is planned and written.
* `setOne_writes_once`: setting a value is one write of the first slot of the name, or none.
-/

namespace EquationSheet

/-! ### Writes that fail -/

namespace FileLock

variable {l : FileLock} {h : Host}

/-- Writes fail before they change the file, if they fail at all: at the start, or before anything is
removed from the file, to which an earlier write left nothing. -/
def FailsEarly (l : FileLock) (h : Host) : Prop :=
  ∀ stage ∈ l.failingStage h, stage = .start ∨ stage = .seek ∨
    stage = .truncate ∧ ∀ f ∈ l.file, h.disk.unwritten? f = none

/-- **A write that fails early changes nothing.** -/
theorem write_of_error (hl : l.FailsEarly h) (t : Text) :
    ∀ fault, (l.write t h).1 = .error fault → (l.write t h).2 = h := by
  intro fault herror
  rcases l.write_cases t h with ⟨other, hwrite, -⟩ | ⟨f, hfile, -, -, ⟨-, hwrite⟩ |
    ⟨stage, hstage, hstart, hwrite⟩⟩
  · rw [hwrite]
  · rw [hwrite] at herror
    simp at herror
  · -- the stages before have changed nothing
    rw [hwrite]
    rcases hl stage hstage with rfl | rfl | ⟨rfl, hleft⟩
    · exact absurd rfl hstart
    · rfl
    · simp only [diskAfter, Disk.flush_of_none (hleft f hfile)]
      rfl

end FileLock

/-- A file whose slot could not be rewritten is as it was. -/
theorem SheetFile.setText_of_error {s : SheetFile} {h : Host} (hs : s.lock.FailsEarly h)
    (i : ℤ) (t : Text) : ∀ fault, (s.setText i t h).1 = .error fault → (s.setText i t h).2 = h := by
  intro fault herror
  unfold setText at herror ⊢
  split
  · rfl
  rename_i hrights
  rw [if_neg hrights] at herror
  split
  · rfl
  rename_i j hposition
  simp only [hposition] at herror
  have hwrite := FileLock.write_of_error hs (Sheet.join (s.slots.set j t))
  simp only at herror ⊢
  generalize s.lock.write (Sheet.join (s.slots.set j t)) h = out at hwrite herror ⊢
  obtain ⟨result, h'⟩ := out
  cases result with
  | error other => exact hwrite fault (by simpa using herror)
  | ok _ => simp at herror

namespace SlotSource

variable {s : SlotSource} {h : Host}

/-- Writes to a file fail before they change it. Memory is not changed by a write that fails. -/
def FailsEarly : SlotSource → Host → Prop
  | memory _ _, _ => True
  | file sheet, h => sheet.lock.FailsEarly h

/-- A slot that could not be rewritten leaves the host as it was. -/
theorem setText_of_error (hs : s.FailsEarly h) (i : ℕ) (t : Text) :
    ∀ fault, (s.setText i t h).1 = .error fault → (s.setText i t h).2 = h := by
  intro fault herror
  cases s with
  | memory slots refuses =>
    simp only [setText]
    split
    · rfl
    · split <;> rfl
  | file sheet =>
    have hsheet := SheetFile.setText_of_error hs i t
    simp only [setText] at herror ⊢
    generalize sheet.setText i t h = out at hsheet herror ⊢
    obtain ⟨result, h'⟩ := out
    cases result with
    | error other => exact hsheet fault (by simpa using herror)
    | ok sheet' => simp at herror

end SlotSource

namespace Store

variable {slots : List Text} {name : Text} {v : Scalar} {r : Rewrite}

/-! ### What is planned -/

/-- The rewrite that is planned is the one of the first slot of the name. -/
theorem plan_eq_some_iff : plan slots name v = .ok (some r) ↔
    isAcceptable v = true ∧ ∃ new, r.Replaces slots name v new := by
  refine ⟨replaces_of_plan, fun ⟨hok, new, hr⟩ => ?_⟩
  rw [plan_of_isFirst hr.isFirst hr.equals hr.value_ne_nil hok hr.newValue, ← hr.after]

/-- Nothing is planned if no slot is found. -/
theorem plan_eq_none_iff : plan slots name v = .ok none ↔ isAcceptable v = true ∧
    ∀ slot ∈ slots, '=' ∈ slot ∧ nameOf (leftOf slot) ≠ name := by
  rw [← findSlot_eq_none_iff]
  unfold plan
  cases hok : isAcceptable v with
  | false => simp
  | true =>
    cases findSlot slots name with
    | error e => simp
    | ok found =>
      cases found with
      | none => simp
      | some found => cases hrewrite : rewrite name v found <;> simp [Except.map, hrewrite]

/-! ### Setting a value -/

variable {s s' : SlotSource} {h h' : Host}

/-- **A value is set** exactly if its rewrite is planned and one write of its slot succeeds. What
else is done is an entry in the journal. -/
theorem setOne_eq_some_iff : setOne s name v h = (.ok (some r, s'), h') ↔
    plan s.texts name v = .ok (some r) ∧ ∃ h₁, s.setText r.index r.after h = (.ok s', h₁) ∧
      h' = h₁.log Logger.store Level.info (r.message name) := by
  unfold setOne
  cases hplan : plan s.texts name v with
  | error fault => simp
  | ok planned =>
    cases planned with
    | none => simp
    | some r' =>
      simp only [Except.ok.injEq, Option.some.injEq]
      constructor
      · intro hset
        split at hset
        · simp at hset
        · rename_i s₁ h₁ hwritten
          simp only [Prod.mk.injEq, Except.ok.injEq, Option.some.injEq] at hset
          obtain ⟨⟨rfl, rfl⟩, rfl⟩ := hset
          exact ⟨rfl, h₁, hwritten, rfl⟩
      · rintro ⟨rfl, h₁, hwritten, rfl⟩
        rw [hwritten]

/-- **No value is set**, and nothing goes wrong, exactly if nothing is planned. -/
theorem setOne_eq_none_iff : setOne s name v h = (.ok (none, s'), h') ↔
    plan s.texts name v = .ok none ∧ s' = s ∧
      h' = h.log Logger.store Level.debug ("No equation named " ++ String.ofList name) := by
  unfold setOne
  cases hplan : plan s.texts name v with
  | error fault => simp
  | ok planned =>
    cases planned with
    | none => simp [eq_comm]
    | some r =>
      simp only [Except.ok.injEq, reduceCtorEq, false_and, iff_false]
      split <;> simp

/-- **A value that could not be set** leaves the host as it was. -/
theorem setOne_of_error (hs : s.FailsEarly h) {fault : Fault}
    (herror : (setOne s name v h).1 = .error fault) : (setOne s name v h).2 = h := by
  unfold setOne at herror ⊢
  cases hplan : plan s.texts name v with
  | error other => rfl
  | ok planned =>
    cases planned with
    | none => simp [hplan] at herror
    | some r =>
      have hset := SlotSource.setText_of_error hs r.index r.after
      simp only [hplan] at herror ⊢
      generalize s.setText r.index r.after h = out at hset herror ⊢
      obtain ⟨result, h'⟩ := out
      cases result with
      | error other => exact hset fault (by simpa using herror)
      | ok s' => simp at herror

/-- The slots afterwards: those that are answered, or with a fault the ones that were there. -/
def slotsAfter (s : SlotSource) : Except Fault (Option Rewrite × SlotSource) → SlotSource
  | .ok (_, s') => s'
  | .error _ => s

/-- **Setting a value is one write or none.** A value is set exactly if its rewrite is planned and a
single write of its slot succeeds. That slot is the first of the name, no slot up to it is without an
equals sign, and no other slot changes. The answer is that there is none exactly if all slots have
equals signs and none has the name, and the value is no number that is not finite. Unless a value is
set, the slots and the disk are as they were. -/
theorem setOne_writes_once (s : SlotSource) (name : Text) (v : Scalar) (h : Host)
    (hs : s.FailsEarly h) :
    (∀ r s' h', setOne s name v h = (.ok (some r, s'), h') ↔
      isAcceptable v = true ∧ (∃ new, r.Replaces s.texts name v new) ∧
        ∃ h₁, s.setText r.index r.after h = (.ok s', h₁) ∧
          h' = h₁.log Logger.store Level.info (r.message name)) ∧
    (∀ r s' h', setOne s name v h = (.ok (some r, s'), h') →
      IsFirst s.texts name r.index r.before ∧ '=' ∈ r.before ∧
        s'.texts = s.texts.set r.index r.after) ∧
    ((∃ s' h', setOne s name v h = (.ok (none, s'), h')) ↔ isAcceptable v = true ∧
      ∀ slot ∈ s.texts, '=' ∈ slot ∧ nameOf (leftOf slot) ≠ name) ∧
    ((∀ r s' h', setOne s name v h ≠ (.ok (some r, s'), h')) →
      slotsAfter s (setOne s name v h).1 = s ∧ (setOne s name v h).2.disk = h.disk) := by
  refine ⟨fun r s' h' => ?_, fun r s' h' hset => ?_, ?_, fun hnot => ?_⟩
  · rw [setOne_eq_some_iff, plan_eq_some_iff, and_assoc]
  · obtain ⟨hplan, htexts⟩ := plan_of_setOne (congrArg Prod.fst hset)
    obtain ⟨-, new, hr⟩ := replaces_of_plan hplan
    exact ⟨hr.isFirst, hr.equals, htexts⟩
  · rw [← plan_eq_none_iff]
    constructor
    · rintro ⟨s', h', hset⟩
      exact (setOne_eq_none_iff.1 hset).1
    · intro hplan
      exact ⟨_, _, setOne_eq_none_iff.2 ⟨hplan, rfl, rfl⟩⟩
  · cases hset : setOne s name v h with
    | mk result h' =>
      cases result with
      | error fault =>
        have hhost := setOne_of_error hs (congrArg Prod.fst hset)
        rw [hset] at hhost
        exact ⟨rfl, congrArg Host.disk hhost⟩
      | ok answer =>
        obtain ⟨planned, s'⟩ := answer
        cases planned with
        | some r => exact absurd hset (hnot r s' h')
        | none =>
          obtain ⟨-, rfl, rfl⟩ := setOne_eq_none_iff.1 hset
          exact ⟨rfl, Host.log_disk _ _ _ _ _⟩

/-- A sheet on a full disk, which is noticed before anything is removed from the file. -/
def fullDisk : SheetFile × Host :=
  (⟨⟨[], ["a.txt".toList]⟩, ⟨⟨[], ["a.txt".toList]⟩, some ⟨0, ["a.txt".toList]⟩, true, false,
      some .truncate, false⟩, ["\"a\"=1mm".toList]⟩,
    { disk := { nodes := [(["a.txt".toList], .file (.text "\"a\"=1mm\n".toList))], nextId := 1,
                owners := [(["a.txt".toList], 0)] } })

/-- A value is not set on a full disk, and nothing is lost. -/
theorem setOne_writes_once_full_disk :
    (setOne (.file fullDisk.1) ['a'] (.int 2) fullDisk.2).1 = .error (.file .diskFull) ∧
    slotsAfter (.file fullDisk.1) (setOne (.file fullDisk.1) ['a'] (.int 2) fullDisk.2).1 =
      .file fullDisk.1 ∧
    (setOne (.file fullDisk.1) ['a'] (.int 2) fullDisk.2).2.disk = fullDisk.2.disk := by
  have herror : (setOne (.file fullDisk.1) ['a'] (.int 2) fullDisk.2).1 =
      .error (.file .diskFull) := by decide +kernel
  have hs : (SlotSource.file fullDisk.1).FailsEarly fullDisk.2 := by
    intro stage hstage
    obtain rfl : WriteStage.truncate = stage := Option.some.inj hstage
    exact .inr (.inr ⟨rfl, fun f _ => Disk.unwritten?_of_nil rfl f⟩)
  obtain ⟨-, -, -, hunset⟩ := setOne_writes_once (.file fullDisk.1) ['a'] (.int 2) fullDisk.2 hs
  refine ⟨herror, hunset fun r s' h' hset => ?_⟩
  rw [hset] at herror
  simp at herror

end Store

end EquationSheet
