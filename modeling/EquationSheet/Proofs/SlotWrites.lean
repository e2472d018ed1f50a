import EquationSheet.Proofs.Opening
import EquationSheet.Proofs.SheetText

/-!
# Texts given to the slots of a file

A handle gives its slots new texts, one call after the other, and the write of a call may fail at any
of its stages. A write that fails leaves what it found until the old text is removed from the file,
and nothing from then on until the new text has been handed over. If it could not be handed over, it
is left to write, and the next call that comes so far writes it over the empty file. The handle
follows only calls that return.

* `FileLock.textAfter`, `FileLock.leftAfter`: the text that a write leaves in the file, and the one
  that it leaves to write, by the stage at which it fails.
* `drained_step`: a text is left to write only where the file is empty.
* `text?_step`, `slots_step`: what a call leaves in the file and in the handle.
* `agrees_step_of_raises`, `agrees_step_of_returns`: when the file has the slots of the handle after
  a call.
* `failed_write_keeps_iff`: **when a failed call keeps the slots of the file**, and when a whole run
  of calls does.
-/

namespace EquationSheet

open Text

/-! ### One write -/

namespace FileLock

variable {l : FileLock} {h : Host} {f : OpenFile} {before : Text}

/-- The text of the file after a write, by the stage at which it fails, if it does: of the text in
the file, the one that an earlier write left to write, and the one that is written. -/
def textAfter (before : Text) (left : Option Text) (new : Text) : Option WriteStage → Text
  | some .start | some .seek => before
  | some .truncate => left.getD before
  | some .write | some .flush => []
  | some .sync | none => new

/-- The text that is left to write after a write, by the stage at which it fails, if it does. -/
def leftAfter (left : Option Text) (new : Text) : Option WriteStage → Option Text
  | some .start | some .seek => left
  | some .flush => some new
  | _ => none

/-- A write that leaves a text to write leaves the file empty, if earlier ones did. -/
theorem textAfter_of_left {left : Option Text} {new : Text} {stage : Option WriteStage}
    (hbefore : left ≠ none → before = []) (hleft : leftAfter left new stage ≠ none) :
    textAfter before left new stage = [] := by
  cases stage with
  | none => exact absurd rfl hleft
  | some stage =>
    cases stage with
    | start => exact hbefore hleft
    | seek => exact hbefore hleft
    | flush => rfl
    | _ => exact absurd rfl hleft

theorem unwritten?_flush (d : Disk) (f : OpenFile) : (d.flush f).unwritten? f = none := by
  unfold Disk.flush
  cases hleft : d.unwritten? f with
  | none => exact hleft
  | some t =>
    simp only
    split
    · exact Disk.unwritten?_forget d f
    · exact Disk.unwritten?_forget d f

/-- What is left to write to an empty file is its text once it is written. -/
theorem content?_flush {d : Disk} (hbefore : d.content? f.key = some (.text before))
    (hleft : ∀ t, d.unwritten? f = some t → before = []) :
    (d.flush f).content? f.key = some (.text ((d.unwritten? f).getD before)) := by
  unfold Disk.flush
  cases hunwritten : d.unwritten? f with
  | none => exact hbefore
  | some t =>
    obtain rfl := hleft t hunwritten
    simp only [hbefore]
    rw [Disk.content?_write (Disk.ne_nil_of_content? hbefore), if_pos rfl]
    rfl

/-- **The disk after a write**, whether it went through or not: the text of the file, and what is
left to write. -/
theorem disk_write (hfile : l.file = some f) (hrights : l.readonly = false)
    (hspent : l.spent = false) (hbefore : h.disk.content? f.key = some (.text before))
    (hleft : ∀ t, h.disk.unwritten? f = some t → before = []) (new : Text) :
    (l.write new h).2.disk.content? f.key =
      some (.text (textAfter before (h.disk.unwritten? f) new (l.failingStage h))) ∧
    (l.write new h).2.disk.unwritten? f =
      leftAfter (h.disk.unwritten? f) new (l.failingStage h) := by
  have hkey : f.key ≠ [] := Disk.ne_nil_of_content? hbefore
  have hforget : ∀ content, ((h.disk.forget f).write f.key content).content? f.key = some content ∧
      ((h.disk.forget f).write f.key content).unwritten? f = none := fun content =>
    ⟨by rw [Disk.content?_write hkey, if_pos rfl], Disk.unwritten?_forget _ f⟩
  unfold write
  simp only [hfile, hrights, hspent, Bool.false_eq_true, if_false]
  cases l.failingStage h with
  | none => exact hforget _
  | some stage =>
    -- one case for each stage that the write may have reached
    cases stage with
    | start => exact ⟨hbefore, rfl⟩
    | seek => exact ⟨hbefore, rfl⟩
    | truncate => exact ⟨content?_flush hbefore hleft, unwritten?_flush h.disk f⟩
    | write => exact hforget _
    | flush => exact ⟨(hforget _).1, by simp [diskAfter, Disk.leave, Disk.unwritten?, leftAfter]⟩
    | sync => exact hforget _

end FileLock

namespace SheetFile

variable {s : SheetFile} {h : Host} {t : Text} {index : ℤ} {i : ℕ}

theorem setText_host (hrights : s.readonly = false)
    (hposition : position? s.slots.length index = some i) :
    (s.setText index t h).2 = (s.lock.write (Sheet.join (s.slots.set i t)) h).2 := by
  unfold setText
  simp only [hrights, hposition, Bool.false_eq_true, if_false]
  split
  · rename_i hwrite
    rw [hwrite]
  · rename_i hwrite
    rw [hwrite]

end SheetFile

/-! ### Calls -/

namespace SlotWrites

/-- A call that gives a slot a new text, and the stage at which its write is going to fail, if any. -/
structure Call where
  index : ℤ
  text : Text
  fault : Option WriteStage := none

/-- A handle and its host. -/
structure World where
  host : Host
  sheet : SheetFile

namespace World

/-- The handle, with the writes of a call. -/
def armed (w : World) (c : Call) : SheetFile :=
  { w.sheet with lock := { w.sheet.lock with writeFault := c.fault } }

/-- The stage at which the write of a call fails, for itself or because of the host. -/
def stage? (w : World) (c : Call) : Option WriteStage := (w.armed c).lock.failingStage w.host

/-- What a call answers, and the host it leaves. -/
def call (w : World) (c : Call) : Except Fault SheetFile × Host :=
  (w.armed c).setText c.index c.text w.host

/-- A call that raises a fault leaves the handle as it is. -/
def step (w : World) (c : Call) : World :=
  match w.call c with
  | (.ok s, h) => ⟨h, s⟩
  | (.error _, h) => { w with host := h }

def Returns (w : World) (c : Call) : Prop := ∃ s, (w.call c).1 = .ok s

def Raises (w : World) (c : Call) : Prop := ∃ fault, (w.call c).1 = .error fault

/-- The text of the file that the handle has open. -/
def text? (w : World) : Option Text :=
  match w.sheet.lock.file with
  | none => none
  | some f =>
    match w.host.disk.content? f.key with
    | some (.text t) => some t
    | _ => none

/-- The file has the slots of the handle. -/
def Agrees (w : World) : Prop := ∃ t, w.text? = some t ∧ Sheet.split t = w.sheet.slots

/-- The text that an earlier call left to write. -/
def left? (w : World) : Option Text := w.sheet.lock.file.bind w.host.disk.unwritten?

/-- Where a text is left to write the file is empty. -/
def Drained (w : World) : Prop := w.left? ≠ none → w.text? = some []

/-- The position of the slot that a call writes, if the handle may be written and has such a slot. -/
def target? (w : World) (c : Call) : Option ℕ :=
  if w.sheet.readonly || w.sheet.lock.spent then none
  else position? w.sheet.slots.length c.index

/-- The text of the file after a call. -/
def textAfter (w : World) (c : Call) (before : Text) : Text :=
  match w.target? c with
  | none => before
  | some i =>
    FileLock.textAfter before w.left? (Sheet.join (w.sheet.slots.set i c.text)) (w.stage? c)

/-- The text that is left to write after a call. -/
def leftAfter (w : World) (c : Call) : Option Text :=
  match w.target? c with
  | none => w.left?
  | some i => FileLock.leftAfter w.left? (Sheet.join (w.sheet.slots.set i c.text)) (w.stage? c)

/-- The slots of the handle after a call. -/
def slotsAfter (w : World) (c : Call) : List Text :=
  match w.target? c with
  | none => w.sheet.slots
  | some i => if w.stage? c = none then w.sheet.slots.set i c.text else w.sheet.slots

end World

variable {w : World} {c : Call} {f : OpenFile} {t : Text} {i : ℕ}

theorem text?_eq_some_iff : w.text? = some t ↔
    ∃ f, w.sheet.lock.file = some f ∧ w.host.disk.content? f.key = some (.text t) := by
  unfold World.text?
  cases hfile : w.sheet.lock.file with
  | none => simp
  | some f =>
    simp only [Option.some.injEq, exists_eq_left']
    split
    · rename_i t' hcontent
      simp [hcontent]
    · rename_i hcontent
      simp only [reduceCtorEq, false_iff]
      exact hcontent t

theorem target?_eq_some_iff : w.target? c = some i ↔ w.sheet.readonly = false ∧
    w.sheet.lock.spent = false ∧ position? w.sheet.slots.length c.index = some i := by
  unfold World.target?
  cases w.sheet.readonly <;> cases w.sheet.lock.spent <;> simp

/-- A call without a slot to write is refused, and nothing happens. -/
theorem call_of_no_target (h : w.target? c = none) : ∃ fault, w.call c = (.error fault, w.host) := by
  have hrights : (w.armed c).readonly = w.sheet.readonly := rfl
  unfold World.call SheetFile.setText
  rw [hrights]
  cases hread : w.sheet.readonly with
  | true => exact ⟨_, rfl⟩
  | false =>
    cases hposition : position? (w.armed c).slots.length c.index with
    | none => exact ⟨_, rfl⟩
    | some i =>
      -- the file was closed, and its write is refused too
      have hspent : (w.armed c).lock.spent = true := by
        by_contra hopen
        have hsome : w.target? c = some i :=
          target?_eq_some_iff.2 ⟨hread, Bool.eq_false_iff.2 hopen, hposition⟩
        rw [h] at hsome
        simp at hsome
      rcases (w.armed c).lock.write_cases (Sheet.join ((w.armed c).slots.set i c.text)) w.host with
        ⟨fault, hwrite, -⟩ | ⟨f, -, -, hopen, -⟩
      · exact ⟨.file fault, by simp [hwrite]⟩
      · exact absurd (hspent.symm.trans hopen) (by simp)

/-- **A call with a slot to write** returns exactly if its write fails at no stage. -/
theorem call_of_target (hfile : w.sheet.lock.file = some f) (htarget : w.target? c = some i) :
    (w.call c).1 = (if w.stage? c = none then
        .ok { w.armed c with slots := w.sheet.slots.set i c.text }
      else .error (.file .diskFull)) ∧
    (w.call c).2 =
      ((w.armed c).lock.write (Sheet.join (w.sheet.slots.set i c.text)) w.host).2 := by
  obtain ⟨hrights, hspent, hposition⟩ := target?_eq_some_iff.1 htarget
  exact ⟨SheetFile.setText_outcome hfile hrights hspent hposition,
    SheetFile.setText_host hrights hposition⟩

theorem returns_iff (hfile : w.sheet.lock.file = some f) :
    w.Returns c ↔ (∃ i, w.target? c = some i) ∧ w.stage? c = none := by
  unfold World.Returns
  cases htarget : w.target? c with
  | none =>
    obtain ⟨fault, hcall⟩ := call_of_no_target htarget
    simp [hcall]
  | some i =>
    rw [(call_of_target hfile htarget).1]
    by_cases hfault : w.stage? c = none <;> simp [hfault]

/-- A call raises a fault or returns. -/
theorem raises_iff : w.Raises c ↔ ¬w.Returns c := by
  unfold World.Raises World.Returns
  cases (w.call c).1 <;> simp

/-! ### What a call leaves -/

theorem host_step : (w.step c).host = (w.call c).2 := by
  unfold World.step
  split
  · rename_i hcall
    rw [hcall]
  · rename_i hcall
    rw [hcall]

theorem sheet_step_of_raises (h : w.Raises c) : (w.step c).sheet = w.sheet := by
  obtain ⟨fault, hfault⟩ := h
  unfold World.step
  split
  · rename_i hcall
    rw [hcall] at hfault
    simp at hfault
  · rfl

/-- A call keeps the file that the handle has open. -/
theorem lock_step (c : Call) : (w.step c).sheet.lock.file = w.sheet.lock.file ∧
    (w.step c).sheet.lock.spent = w.sheet.lock.spent := by
  unfold World.step
  split
  · rename_i s h hcall
    have hlock : s.lock = (w.armed c).lock := SheetFile.setText_lock (congrArg Prod.fst hcall)
    simp only [hlock, World.armed, and_self]
  · exact ⟨rfl, rfl⟩

/-- **The slots of the handle** change with a call that returns, and with no other. -/
theorem slots_step (hfile : w.sheet.lock.file = some f) (c : Call) :
    (w.step c).sheet.slots = w.slotsAfter c := by
  unfold World.slotsAfter
  cases htarget : w.target? c with
  | none =>
    obtain ⟨fault, hcall⟩ := call_of_no_target htarget
    rw [sheet_step_of_raises ⟨fault, congrArg Prod.fst hcall⟩]
  | some i =>
    obtain ⟨houtcome, -⟩ := call_of_target hfile htarget
    by_cases hfault : w.stage? c = none
    · simp only [hfault, if_true] at houtcome ⊢
      unfold World.step
      generalize w.call c = out at houtcome
      obtain ⟨result, h⟩ := out
      simp only at houtcome
      subst houtcome
      rfl
    · simp only [hfault, if_false] at houtcome ⊢
      rw [sheet_step_of_raises ⟨_, houtcome⟩]

/-- **The file after a call**, whether it returns or not: its text, and what is left to write. -/
theorem disk_step (htext : w.text? = some t) (hdrained : w.Drained) (c : Call) :
    (w.step c).text? = some (w.textAfter c t) ∧ (w.step c).left? = w.leftAfter c := by
  obtain ⟨f, hfile, hcontent⟩ := text?_eq_some_iff.1 htext
  have hleft : w.left? = w.host.disk.unwritten? f := by simp [World.left?, hfile]
  have hfile' : (w.step c).sheet.lock.file = some f := (lock_step c).1.trans hfile
  have hleft' : (w.step c).left? = (w.call c).2.disk.unwritten? f := by
    simp [World.left?, hfile', host_step]
  rw [text?_eq_some_iff, hleft']
  simp only [hfile', Option.some.injEq, exists_eq_left', host_step]
  unfold World.textAfter World.leftAfter
  cases htarget : w.target? c with
  | none =>
    obtain ⟨fault, hcall⟩ := call_of_no_target htarget
    rw [hcall, ← hleft]
    exact ⟨hcontent, rfl⟩
  | some i =>
    obtain ⟨hrights, hspent, -⟩ := target?_eq_some_iff.1 htarget
    have hempty : ∀ u, w.host.disk.unwritten? f = some u → t = [] := fun u hu => by
      simpa [htext] using hdrained (by simp [hleft, hu])
    rw [(call_of_target hfile htarget).2, hleft]
    exact FileLock.disk_write (l := (w.armed c).lock) hfile hrights hspent hcontent hempty _

/-- **The text of the file** after a call, whether it returns or not. -/
theorem text?_step (htext : w.text? = some t) (hdrained : w.Drained) (c : Call) :
    (w.step c).text? = some (w.textAfter c t) := (disk_step htext hdrained c).1

/-- **A text is left to write** only where the file is empty. -/
theorem drained_step (htext : w.text? = some t) (hdrained : w.Drained) (c : Call) :
    (w.step c).Drained := by
  obtain ⟨hafter, hleft⟩ := disk_step htext hdrained c
  have hempty : w.left? ≠ none → t = [] := fun hsome => by simpa [htext] using hdrained hsome
  intro hsome
  rw [hleft] at hsome
  rw [hafter]
  unfold World.leftAfter at hsome
  unfold World.textAfter
  cases htarget : w.target? c with
  | none =>
    rw [htarget] at hsome
    rw [hempty hsome]
  | some i =>
    rw [htarget] at hsome
    exact congrArg some (FileLock.textAfter_of_left hempty hsome)

/-! ### Agreement -/

/-- A failed call spares the slots of the file: it is refused, or fails before the old text is
removed; or all of the new text is there, and reading it back gives the slot that was there before. -/
def World.Spares (w : World) (c : Call) : Prop :=
  w.target? c = none ∨ w.stage? c = some .start ∨ w.stage? c = some .seek ∨
    w.stage? c = some .truncate ∨ w.stage? c = some .sync ∧ ∃ i slot, w.target? c = some i ∧
      w.sheet.slots[i]? = some slot ∧ Sheet.split c.text = [slot]

theorem World.Agrees.isClean (h : w.Agrees) : ∀ slot ∈ w.sheet.slots, IsClean slot := by
  obtain ⟨t, -, hsplit⟩ := h
  intro slot hslot
  rw [← hsplit] at hslot
  exact Sheet.isClean_of_mem_split hslot

/-- Clean slots, of which one was given a text, are read back as they were exactly if the text is
read as the old slot. -/
theorem split_set_eq_iff {slots : List Text} {slot : Text} (hslots : ∀ slot ∈ slots, IsClean slot)
    (hi : slots[i]? = some slot) (t : Text) :
    (slots.set i t).flatMap Sheet.split = slots ↔ Sheet.split t = [slot] := by
  obtain ⟨hlt, rfl⟩ := List.getElem?_eq_some_iff.1 hi
  have hfront : (slots.take i).flatMap Sheet.split = slots.take i :=
    Sheet.flatMap_split_eq_iff.2 fun slot hslot => hslots slot (List.mem_of_mem_take hslot)
  have hback : (slots.drop (i + 1)).flatMap Sheet.split = slots.drop (i + 1) :=
    Sheet.flatMap_split_eq_iff.2 fun slot hslot => hslots slot (List.mem_of_mem_drop hslot)
  have hwhole : slots = slots.take i ++ ([slots[i]] ++ slots.drop (i + 1)) := by
    rw [List.singleton_append, ← List.drop_eq_getElem_cons hlt, List.take_append_drop]
  have hset : slots.set i t = slots.take i ++ ([t] ++ slots.drop (i + 1)) := by
    rw [List.set_eq_take_append_cons_drop, if_pos hlt]
    rfl
  have hsplit : (slots.set i t).flatMap Sheet.split =
      slots.take i ++ (Sheet.split t ++ slots.drop (i + 1)) := by
    rw [hset, List.flatMap_append, List.flatMap_append, List.flatMap_singleton, hfront, hback]
  rw [hsplit]
  conv_lhs => rhs; rw [hwhole]
  rw [List.append_right_inj, List.append_left_inj]

/-- Clean slots, of which one was given a text, are clean exactly if the text is. -/
theorem isClean_set_iff {slots : List Text} (hslots : ∀ slot ∈ slots, IsClean slot)
    (hi : i < slots.length) (t : Text) : (∀ slot ∈ slots.set i t, IsClean slot) ↔ IsClean t := by
  constructor
  · intro hset
    exact hset t (List.mem_set hi t)
  · intro ht slot hslot
    rcases List.mem_or_eq_of_mem_set hslot with hold | rfl
    · exact hslots slot hold
    · exact ht

/-- A file with the slots of a handle has something in it if there is a slot to write, and then
nothing is left to write. -/
theorem World.Agrees.left?_eq_none (h : w.Agrees) (hdrained : w.Drained)
    (htarget : w.target? c = some i) : w.left? = none := by
  obtain ⟨t, htext, hsplit⟩ := h
  by_contra hleft
  obtain rfl : t = [] := Option.some.inj (htext.symm.trans (hdrained hleft))
  have hlt : i < w.sheet.slots.length := position?_lt (target?_eq_some_iff.1 htarget).2.2
  rw [← hsplit] at hlt
  exact absurd hlt (by simp [Sheet.split, lines])

/-- **After a call that returned** the file has the slots of the handle if the new text is clean. -/
theorem agrees_step_of_returns (h : w.Agrees) (hdrained : w.Drained) (hreturns : w.Returns c) :
    (w.step c).Agrees ↔ IsClean c.text := by
  have hclean := h.isClean
  obtain ⟨t, htext, -⟩ := h
  obtain ⟨f, hfile, -⟩ := text?_eq_some_iff.1 htext
  obtain ⟨⟨i, htarget⟩, hstage⟩ := (returns_iff hfile).1 hreturns
  have hlt : i < w.sheet.slots.length := position?_lt (target?_eq_some_iff.1 htarget).2.2
  have hafter : (w.step c).text? = some (Sheet.join (w.sheet.slots.set i c.text)) := by
    rw [text?_step htext hdrained]
    simp only [World.textAfter, htarget, hstage, FileLock.textAfter]
  have hslots : (w.step c).sheet.slots = w.sheet.slots.set i c.text := by
    rw [slots_step hfile]
    simp only [World.slotsAfter, htarget, hstage, if_true]
  unfold World.Agrees
  simp only [hafter, hslots, Option.some.injEq, exists_eq_left']
  rw [Sheet.split_join_flatMap, Sheet.flatMap_split_eq_iff, isClean_set_iff hclean hlt]

/-- **After a call that raised a fault** the file has the slots of the handle if it was spared. -/
theorem agrees_step_of_raises (h : w.Agrees) (hdrained : w.Drained) (hraises : w.Raises c) :
    (w.step c).Agrees ↔ w.Spares c := by
  have hclean := h.isClean
  have hnone := fun i => h.left?_eq_none (i := i) (c := c) hdrained
  obtain ⟨t, htext, hsplit⟩ := h
  obtain ⟨f, hfile, -⟩ := text?_eq_some_iff.1 htext
  unfold World.Agrees World.Spares
  rw [text?_step htext hdrained, sheet_step_of_raises hraises]
  simp only [Option.some.injEq, exists_eq_left', World.textAfter]
  cases htarget : w.target? c with
  | none => simp [hsplit]
  | some i =>
    have hlt : i < w.sheet.slots.length := position?_lt (target?_eq_some_iff.1 htarget).2.2
    have hslot : w.sheet.slots[i]? = some w.sheet.slots[i] := List.getElem?_eq_getElem hlt
    simp only [hnone i htarget]
    cases hstage : w.stage? c with
    | none => exact absurd ((returns_iff hfile).2 ⟨⟨i, htarget⟩, hstage⟩) (raises_iff.1 hraises)
    | some stage =>
      -- one case for each stage that the write may have reached
      have hempty : Sheet.split [] ≠ w.sheet.slots := by
        intro hnone
        rw [← hnone] at hlt
        exact absurd hlt (by simp [Sheet.split, lines])
      cases stage with
      | start => simp [FileLock.textAfter, hsplit]
      | seek => simp [FileLock.textAfter, hsplit]
      | truncate => simp [FileLock.textAfter, hsplit]
      | write => simp [FileLock.textAfter, hempty]
      | flush => simp [FileLock.textAfter, hempty]
      | sync =>
        simp only [FileLock.textAfter, Sheet.split_join_flatMap, split_set_eq_iff hclean hslot]
        simp [hslot]

/-! ### Runs of calls -/

/-- The world after the first `n` calls. -/
def worldAfter (w : World) (cs : List Call) (n : ℕ) : World := stateAfter World.step w cs n

variable {cs : List Call} {n : ℕ}

theorem worldAfter_zero : worldAfter w cs 0 = w := stateAfter_zero

theorem worldAfter_succ (h : cs[n]? = some c) :
    worldAfter w cs (n + 1) = (worldAfter w cs n).step c := stateAfter_succ h

theorem worldAfter_succ_none (h : cs[n]? = none) :
    worldAfter w cs (n + 1) = worldAfter w cs n := stateAfter_succ_none h

/-- A call keeps the slots of the file: a new text that was stored is clean, and a call that raised a
fault spared them. -/
def World.Keeps (w : World) (c : Call) : Prop :=
  (w.Returns c → IsClean c.text) ∧ (w.Raises c → w.Spares c)

theorem keeps_of_returns (hreturns : w.Returns c) : w.Keeps c ↔ IsClean c.text := by
  have hraises : ¬w.Raises c := fun hraises => raises_iff.1 hraises hreturns
  simp only [World.Keeps, hreturns, hraises, true_imp_iff, false_imp_iff, and_true]

theorem keeps_of_raises (hraises : w.Raises c) : w.Keeps c ↔ w.Spares c := by
  have hreturns : ¬w.Returns c := raises_iff.1 hraises
  simp only [World.Keeps, hreturns, hraises, true_imp_iff, false_imp_iff, true_and]

theorem agrees_step_iff (h : w.Agrees) (hdrained : w.Drained) :
    (w.step c).Agrees ↔ w.Keeps c := by
  by_cases hreturns : w.Returns c
  · rw [keeps_of_returns hreturns, agrees_step_of_returns h hdrained hreturns]
  · have hraises : w.Raises c := raises_iff.2 hreturns
    rw [keeps_of_raises hraises, agrees_step_of_raises h hdrained hraises]

/-- **Whatever calls are made** the handle has a text open, and one is left to write only where the
file is empty. -/
theorem drained_run (htext : ∃ t, w.text? = some t) (hdrained : w.Drained) (cs : List Call) (n : ℕ) :
    (∃ t, (worldAfter w cs n).text? = some t) ∧ (worldAfter w cs n).Drained := by
  refine stateAfter_induction (P := fun w : World => (∃ t, w.text? = some t) ∧ w.Drained)
    ⟨htext, hdrained⟩ (fun m c _ hm => ?_) n
  obtain ⟨⟨t, ht⟩, hd⟩ := hm
  exact ⟨⟨_, text?_step ht hd c⟩, drained_step ht hd c⟩

/-- **A run of calls** leaves the file with the slots of the handle all the time exactly if every call
keeps them. -/
theorem agrees_run_iff (h : w.Agrees) (hdrained : w.Drained) (n : ℕ) :
    (∀ m ≤ n, (worldAfter w cs m).Agrees) ↔
      ∀ m < n, ∀ c, cs[m]? = some c → (worldAfter w cs m).Keeps c := by
  have hfirst : ∃ t, w.text? = some t := h.imp fun _ ht => ht.1
  induction n with
  | zero =>
    constructor
    · intro _ m hm
      exact absurd hm (Nat.not_lt_zero m)
    · intro _ m hm
      obtain rfl : m = 0 := Nat.le_zero.1 hm
      rwa [worldAfter_zero]
  | succ n ih =>
    constructor
    · intro hall m hm c hc
      have hnow := hall m (Nat.le_of_lt hm)
      have hnext := hall (m + 1) hm
      rw [worldAfter_succ hc] at hnext
      exact (agrees_step_iff hnow (drained_run hfirst hdrained cs m).2).1 hnext
    · intro hkeeps m hm
      have hearlier := ih.2 fun m hm c hc => hkeeps m (Nat.lt_succ_of_lt hm) c hc
      rcases Nat.lt_or_ge n m with hlast | hle
      · obtain rfl : m = n + 1 := by omega
        cases hc : cs[n]? with
        | none =>
          rw [worldAfter_succ_none hc]
          exact hearlier n le_rfl
        | some c =>
          rw [worldAfter_succ hc]
          exact (agrees_step_iff (hearlier n le_rfl) (drained_run hfirst hdrained cs n).2).2
            (hkeeps n (Nat.lt_succ_self n) c hc)
      · exact hearlier m hle

/-- The handle was opened just now. -/
def World.IsFresh (w : World) : Prop := ∃ p h, SheetFile.load p h = (.ok w.sheet, w.host)

/-- A handle that was opened just now has its slots in the file, and nothing left to write. -/
theorem World.IsFresh.agrees (h : w.IsFresh) : w.Agrees ∧ w.Drained := by
  obtain ⟨p, h₀, hload⟩ := h
  rcases SheetFile.load_cases p h₀ with ⟨fault, h', hload', -⟩ |
    ⟨s, f, t, h', hload', hopened, hcontent, hslots⟩
  · rw [hload] at hload'
    simp at hload'
  · obtain ⟨hs, rfl⟩ := Prod.mk.inj (hload.symm.trans hload')
    obtain rfl := Except.ok.inj hs
    have hnow : w.host.disk.content? f.key = some (.text t) := by
      rw [Disk.content?_of_nodes hopened.keeps.nodes, hcontent]
    refine ⟨⟨t, text?_eq_some_iff.2 ⟨f, hopened.file, hnow⟩, hslots.symm⟩, fun hleft => ?_⟩
    exact absurd (by rw [World.left?, hopened.file, Option.bind_some, hopened.written]) hleft

/-- **A failed write keeps the slots of the file** exactly if it spares them. Whatever calls were made
on a handle before, a call that raises a fault leaves the handle as it is and the file with the text
that its stage leaves; if the file had the slots of the handle, it still has them exactly if the call
was refused, failed before the old text was removed, or failed after it had stored a text that is
read as the old slot. A whole run of calls leaves the file with the slots of the handle all the time
exactly if the texts it stores are clean and its failed calls spare the file. -/
theorem failed_write_keeps_iff (hw : w.IsFresh) (cs : List Call) :
    (∀ n c, cs[n]? = some c → (worldAfter w cs n).Raises c →
      (worldAfter w cs (n + 1)).sheet = (worldAfter w cs n).sheet ∧
      (∀ t, (worldAfter w cs n).text? = some t →
        (worldAfter w cs (n + 1)).text? = some ((worldAfter w cs n).textAfter c t)) ∧
      ((worldAfter w cs n).Agrees →
        ((worldAfter w cs (n + 1)).Agrees ↔ (worldAfter w cs n).Spares c))) ∧
    ∀ n, (∀ m ≤ n, (worldAfter w cs m).Agrees) ↔
      ∀ m < n, ∀ c, cs[m]? = some c → (worldAfter w cs m).Keeps c := by
  obtain ⟨hagrees, hdrained⟩ := hw.agrees
  refine ⟨fun n c hc hraises => ?_, agrees_run_iff hagrees hdrained⟩
  obtain ⟨-, hnow⟩ := drained_run (hagrees.imp fun _ ht => ht.1) hdrained cs n
  rw [worldAfter_succ hc]
  refine ⟨sheet_step_of_raises hraises, fun t ht => text?_step ht hnow c, fun hagrees => ?_⟩
  exact agrees_step_of_raises hagrees hnow hraises

/-- A sheet with a width, opened just now. -/
def width : World :=
  ⟨{ disk := { nodes := [(["a.txt".toList], .file (.text "\"x\"=1mm\n".toList))], nextId := 1,
               owners := [(["a.txt".toList], 0)] },
     journal := [⟨Logger.fileLock, Level.info, "Loaded 1 equations from a.txt", none⟩] },
    ⟨⟨[], ["a.txt".toList]⟩,
      { path := ⟨[], ["a.txt".toList]⟩, file := some ⟨0, ["a.txt".toList]⟩, locked := true },
      ["\"x\"=1mm".toList]⟩⟩

theorem isFresh_width : width.IsFresh :=
  ⟨⟨[], ["a.txt".toList]⟩,
    { disk := { nodes := [(["a.txt".toList], .file (.text "\"x\"=1mm\n".toList))] } }, rfl⟩

/-- The width is set; setting it fails before anything is removed; then it fails once nothing is
left. -/
def widthCalls : List Call :=
  [⟨0, "\"x\"=2mm".toList, none⟩, ⟨0, "\"x\"=3mm".toList, some .truncate⟩,
    ⟨0, "\"x\"=4mm".toList, some .flush⟩]

/-- The file has the slots of the handle until the last call. -/
theorem failed_write_keeps_iff_width :
    (worldAfter width widthCalls 2).Agrees ∧ ¬(worldAfter width widthCalls 3).Agrees := by
  obtain ⟨hcalls, hruns⟩ := failed_write_keeps_iff isFresh_width widthCalls
  have hagrees : (worldAfter width widthCalls 2).Agrees := by
    refine (hruns 2).2 (fun m hm c hc => ?_) 2 le_rfl
    obtain rfl | rfl : m = 0 ∨ m = 1 := by omega
    · obtain rfl := Option.some.inj hc
      exact (keeps_of_returns ⟨_, rfl⟩).2 (Sheet.split_eq_singleton_iff.1 (by decide))
    · obtain rfl := Option.some.inj hc
      exact (keeps_of_raises ⟨_, rfl⟩).2 (.inr (.inr (.inr (.inl rfl))))
  refine ⟨hagrees, fun hlast => ?_⟩
  obtain ⟨-, -, hiff⟩ := hcalls 2 ⟨0, "\"x\"=4mm".toList, some .flush⟩ rfl ⟨_, rfl⟩
  rcases (hiff hagrees).1 hlast with hnone | hstart | hseek | htruncate | ⟨hsync, -⟩
  · exact absurd hnone (by decide)
  · exact absurd hstart (by decide)
  · exact absurd hseek (by decide)
  · exact absurd htruncate (by decide)
  · exact absurd hsync (by decide)

/-- A text with blanks at its ends is stored, and the next call fails before anything is removed. -/
def paddedCalls : List Call :=
  [⟨0, " \"x\"=2mm ".toList, none⟩, ⟨0, "\"x\"=3mm".toList, some .start⟩]

/-- **A failed write empties the file.** A call whose write fails once the old text is removed raises
a fault; the handle keeps its slot, and the file is empty. And after a text that is not clean was
stored, a call that fails before anything is removed leaves a file with another slot than the
handle. -/
theorem failed_write_empties_file :
    (width.Raises ⟨0, "\"x\"=2mm".toList, some .write⟩ ∧
      (width.step ⟨0, "\"x\"=2mm".toList, some .write⟩).sheet.slots = ["\"x\"=1mm".toList] ∧
      (width.step ⟨0, "\"x\"=2mm".toList, some .write⟩).text? = some [] ∧ Sheet.split [] = []) ∧
    (worldAfter width paddedCalls 1).Raises ⟨0, "\"x\"=3mm".toList, some .start⟩ ∧
    (worldAfter width paddedCalls 2).sheet.slots = [" \"x\"=2mm ".toList] ∧
    (worldAfter width paddedCalls 2).text? = some " \"x\"=2mm \n".toList ∧
    Sheet.split " \"x\"=2mm \n".toList = ["\"x\"=2mm".toList] :=
  ⟨⟨⟨_, rfl⟩, rfl, rfl, rfl⟩, ⟨_, rfl⟩, rfl, rfl, by decide⟩

end SlotWrites

end EquationSheet
