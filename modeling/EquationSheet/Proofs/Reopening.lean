import EquationSheet.Proofs.SlotWrites

/-!
# What the next opener sees

A call that returns has stored all texts of its handle, joined to a sheet, whatever became of the
calls before it. After the handle is closed, the file is opened again where it was, and each text of
the handle is read as the slots that it has as a text of its own.

* `Disk.Touches.locateFile`: writing a file that is there moves nothing.
* `text?_of_returns`: after a call that returns, the file is the sheet of the handle.
* `exists_reopen`: a closed file is opened again, and its slots are read.
* `mem_slots_run`: a slot of the handle was in the file at first, or is a text that was stored.
* `reopened_slots_iff`: **the next opener sees the slots of the handle exactly if they are clean**.
-/

namespace EquationSheet

open Text

/-! ### Where the file is -/

namespace Disk.Touches

variable {d d' : Disk} {f : OpenFile} {old : Content}

/-- Under each key there is what was there before, or a file in place of a file. -/
theorem node_or_file (h : Touches f d d') (hold : d.content? f.key = some old) (k : Key) :
    d'.node? k = d.node? k ∨
      ∃ new, d.node? k = some (.file old) ∧ d'.node? k = some (.file new) := by
  rcases h.node k with hsame | ⟨rfl, new, hnew⟩
  · exact .inl hsame
  · exact .inr ⟨new, content?_eq_some_iff.1 hold, hnew⟩

theorem walk (h : Touches f d d') (hold : d.content? f.key = some old) (here : Key)
    (parts : List Text) : d'.walk here parts = d.walk here parts := by
  induction parts generalizing here with
  | nil => rfl
  | cons part rest ih =>
    simp only [Disk.walk, ih]
    rcases h.node_or_file hold here with hsame | ⟨new, hbefore, hafter⟩
    · rw [hsame]
    · -- the way ends at the file, whatever it holds
      rw [hbefore, hafter]

/-- **Writing a file that is there** moves nothing. -/
theorem locateFile (h : Touches f d d') (hold : d.content? f.key = some old) (p : Path) :
    d'.locateFile p = d.locateFile p := by
  unfold Disk.locateFile locate
  simp only [h.walk hold]
  split
  · rfl
  · rename_i k _
    rcases h.node_or_file hold k with hsame | ⟨new, hbefore, hafter⟩
    · rw [hsame]
    · rw [hbefore, hafter]

end Disk.Touches

namespace SlotWrites

variable {w : World} {c : Call} {cs : List Call} {n : ℕ} {f : OpenFile} {t : Text} {q : Path}

/-- The path leads to the file that the handle has open. -/
def World.LeadsTo (w : World) (q : Path) : Prop :=
  q.isNameable = true ∧ ∃ f, w.sheet.lock.file = some f ∧ w.host.disk.locateFile q = .ok f.key

/-- The path that a handle was opened with leads to its file. -/
theorem leadsTo_of_load {p : Path} {h : Host} (hload : SheetFile.load p h = (.ok w.sheet, w.host)) :
    w.LeadsTo p := by
  obtain ⟨f, hopened⟩ := SheetFile.opened_of_load hload
  refine ⟨hopened.nameable, f, hopened.file, ?_⟩
  rw [Disk.locateFile_of_nodes hopened.keeps.nodes, hopened.located]

theorem leadsTo_step (htext : w.text? = some t) (hq : w.LeadsTo q) (c : Call) :
    (w.step c).LeadsTo q := by
  obtain ⟨hname, f, hfile, hlocated⟩ := hq
  refine ⟨hname, f, (lock_step c).1.trans hfile, ?_⟩
  obtain ⟨f', hfile', hcontent⟩ := text?_eq_some_iff.1 htext
  have hwrites : w.host.disk.Writes w.sheet.lock.file (w.step c).host.disk := by
    rw [host_step]
    exact (w.armed c).writes_setText c.index c.text w.host
  rcases hwrites with hsame | ⟨g, hg, htouches⟩
  · rw [hsame, hlocated]
  · obtain rfl : f' = g := Option.some.inj (hfile'.symm.trans hg)
    rw [htouches.locateFile hcontent, hlocated]

/-- Whatever calls are made, the handle has a text open where the path leads. -/
theorem leadsTo_run (htext : ∃ t, w.text? = some t) (hdrained : w.Drained) (hq : w.LeadsTo q)
    (cs : List Call) (n : ℕ) :
    (∃ t, (worldAfter w cs n).text? = some t) ∧ (worldAfter w cs n).LeadsTo q := by
  induction n with
  | zero =>
    rw [worldAfter_zero]
    exact ⟨htext, hq⟩
  | succ n ih =>
    obtain ⟨⟨t, ht⟩, hleads⟩ := ih
    refine ⟨(drained_run htext hdrained cs (n + 1)).1, ?_⟩
    cases hc : cs[n]? with
    | none => rwa [worldAfter_succ_none hc]
    | some c =>
      rw [worldAfter_succ hc]
      exact leadsTo_step ht hleads c

/-! ### What was stored -/

/-- **After a call that returns** the file is the sheet of the handle, which has nothing left to
write. -/
theorem text?_of_returns (htext : w.text? = some t) (hdrained : w.Drained)
    (hreturns : w.Returns c) : (w.step c).text? = some (Sheet.join (w.step c).sheet.slots) ∧
      (w.step c).sheet.lock.Settled (w.step c).host.disk := by
  obtain ⟨f, hfile, hcontent⟩ := text?_eq_some_iff.1 htext
  obtain ⟨⟨i, htarget⟩, hstage⟩ := (returns_iff hfile).1 hreturns
  obtain ⟨hrights, hspent, -⟩ := target?_eq_some_iff.1 htarget
  obtain ⟨hafter, hleft⟩ := disk_step htext hdrained c
  obtain ⟨hsame, hopen⟩ := lock_step (w := w) c
  simp only [World.textAfter, World.leftAfter, htarget, hstage, FileLock.textAfter,
    FileLock.leftAfter] at hafter hleft
  constructor
  · rw [hafter, slots_step hfile]
    simp only [World.slotsAfter, htarget, hstage, if_true]
  · refine ⟨hopen.trans hspent, fun g hg => ?_⟩
    rwa [World.left?, hg] at hleft

/-- A slot of the handle after a call was there before, or is the text of the call, which returned. -/
theorem mem_slots_step (htext : w.text? = some t) {slot : Text}
    (hslot : slot ∈ (w.step c).sheet.slots) :
    slot ∈ w.sheet.slots ∨ w.Returns c ∧ c.text = slot := by
  obtain ⟨f, hfile, -⟩ := text?_eq_some_iff.1 htext
  by_cases hreturns : w.Returns c
  · obtain ⟨⟨i, htarget⟩, hstage⟩ := (returns_iff hfile).1 hreturns
    rw [slots_step hfile] at hslot
    simp only [World.slotsAfter, htarget, hstage, if_true] at hslot
    rcases List.mem_or_eq_of_mem_set hslot with hold | hnew
    · exact .inl hold
    · exact .inr ⟨hreturns, hnew.symm⟩
  · rw [sheet_step_of_raises (raises_iff.2 hreturns)] at hslot
    exact .inl hslot

/-- **A slot of the handle** was there at first, or is the text of a call that returned. -/
theorem mem_slots_run (htext : ∃ t, w.text? = some t) (hdrained : w.Drained) (n : ℕ) {slot : Text}
    (hslot : slot ∈ (worldAfter w cs n).sheet.slots) : slot ∈ w.sheet.slots ∨
      ∃ m < n, ∃ c, cs[m]? = some c ∧ (worldAfter w cs m).Returns c ∧ c.text = slot := by
  induction n with
  | zero =>
    rw [worldAfter_zero] at hslot
    exact .inl hslot
  | succ n ih =>
    have hearlier : slot ∈ (worldAfter w cs n).sheet.slots → slot ∈ w.sheet.slots ∨
        ∃ m < n + 1, ∃ c, cs[m]? = some c ∧ (worldAfter w cs m).Returns c ∧ c.text = slot := by
      intro hbefore
      rcases ih hbefore with hfirst | ⟨m, hm, hstored⟩
      · exact .inl hfirst
      · exact .inr ⟨m, Nat.lt_succ_of_lt hm, hstored⟩
    cases hc : cs[n]? with
    | none =>
      rw [worldAfter_succ_none hc] at hslot
      exact hearlier hslot
    | some c =>
      rw [worldAfter_succ hc] at hslot
      obtain ⟨⟨t, ht⟩, -⟩ := drained_run htext hdrained cs n
      rcases mem_slots_step ht hslot with hbefore | hstored
      · exact hearlier hbefore
      · exact .inr ⟨n, Nat.lt_succ_self n, c, hc, hstored⟩

/-! ### Opening the file again -/

/-- The handle is closed, and the file at a path is opened, each under conditions of its own. -/
def World.reopen (w : World) (q : Path) (closing opening : Conditions) :
    Except Fault SheetFile × Host :=
  SheetFile.load q
    { (w.sheet.close { w.host with conditions := closing }).2 with conditions := opening }

/-- **A file that was closed** is opened again, and its slots are read. -/
theorem exists_reopen (htext : w.text? = some t) (hq : w.LeadsTo q)
    (hsettled : w.sheet.lock.Settled w.host.disk) (closing : Conditions)
    {opening : Conditions} (hallowed : opening.denial ≠ .everything) :
    ∃ s h, w.reopen q closing opening = (.ok s, h) ∧ s.slots = Sheet.split t := by
  obtain ⟨f, hfile, hcontent⟩ := text?_eq_some_iff.1 htext
  obtain ⟨hname, f', hfile', hlocated⟩ := hq
  obtain rfl : f' = f := Option.some.inj (hfile'.symm.trans hfile)
  have hclosed : (w.sheet.close { w.host with conditions := closing }).2.disk.nodes =
      w.host.disk.nodes := by
    rw [SheetFile.close_disk (h := { w.host with conditions := closing }) hsettled]
    exact w.sheet.lock.closeFile_nodes w.host.disk
  obtain ⟨s, h, hload, hslots, -⟩ := SheetFile.load_of_text
    (h := { (w.sheet.close { w.host with conditions := closing }).2 with conditions := opening })
    hname ((Disk.locateFile_of_nodes hclosed q).trans hlocated) hallowed
    ((Disk.content?_of_nodes hclosed f'.key).trans hcontent)
  exact ⟨s, h, hload, hslots⟩

/-- **The next opener sees the slots of the handle exactly if they are clean.** A handle was opened
and any calls were made on it, of which the last one returned; then it is closed, and the file is
opened again. It has the slots of the texts that the handle has, one text after the other, so they
are the same slots exactly if the texts are clean; and a text that is not clean was stored by one of
the calls. -/
theorem reopened_slots_iff (hw : w.IsFresh) (hc : cs[n]? = some c)
    (hreturns : (worldAfter w cs n).Returns c) (hq : w.LeadsTo q) (closing : Conditions)
    {opening : Conditions} (hallowed : opening.denial ≠ .everything) :
    (∃ s h, (worldAfter w cs (n + 1)).reopen q closing opening = (.ok s, h) ∧
      s.slots = (worldAfter w cs (n + 1)).sheet.slots.flatMap Sheet.split ∧
      (s.slots = (worldAfter w cs (n + 1)).sheet.slots ↔
        ∀ slot ∈ (worldAfter w cs (n + 1)).sheet.slots, IsClean slot)) ∧
    ∀ slot ∈ (worldAfter w cs (n + 1)).sheet.slots, ¬IsClean slot →
      ∃ m < n + 1, ∃ c, cs[m]? = some c ∧ (worldAfter w cs m).Returns c ∧ c.text = slot := by
  obtain ⟨hagrees, hdrained⟩ := hw.agrees
  have hfirst : ∃ t, w.text? = some t := hagrees.imp fun _ ht => ht.1
  obtain ⟨⟨t, ht⟩, hnow⟩ := drained_run hfirst hdrained cs n
  obtain ⟨-, hleads⟩ := leadsTo_run hfirst hdrained hq cs (n + 1)
  obtain ⟨hstored, hsettled⟩ := text?_of_returns ht hnow hreturns
  rw [← worldAfter_succ hc] at hstored hsettled
  refine ⟨?_, fun slot hslot hunclean => ?_⟩
  · obtain ⟨s, h, hreopen, hslots⟩ := exists_reopen hstored hleads hsettled closing hallowed
    rw [Sheet.split_join_flatMap] at hslots
    exact ⟨s, h, hreopen, hslots, by rw [hslots, Sheet.flatMap_split_eq_iff]⟩
  · rcases mem_slots_run hfirst hdrained (n + 1) hslot with hold | hset
    · exact absurd (hagrees.isClean slot hold) hunclean
    · exact hset

theorem leadsTo_width : width.LeadsTo ⟨[], ["a.txt".toList]⟩ :=
  leadsTo_of_load
    (h := { disk := { nodes := [(["a.txt".toList], .file (.text "\"x\"=1mm\n".toList))] } }) rfl

/-- Setting the width fails once nothing is left in the file; then it is set. -/
def retriedCalls : List Call :=
  [⟨0, "\"x\"=2mm".toList, some .write⟩, ⟨0, "\"x\"=2mm".toList, none⟩]

/-- The text of the second call is clean, so the next opener sees it. -/
theorem reopened_slots_iff_width : ∃ s h,
    (worldAfter width retriedCalls 2).reopen ⟨[], ["a.txt".toList]⟩ {} {} = (.ok s, h) ∧
      s.slots = ["\"x\"=2mm".toList] := by
  have hreturns : (worldAfter width retriedCalls 1).Returns ⟨0, "\"x\"=2mm".toList, none⟩ := ⟨_, rfl⟩
  have hnow : (worldAfter width retriedCalls 2).sheet.slots = ["\"x\"=2mm".toList] := rfl
  have hclean : ∀ slot ∈ ["\"x\"=2mm".toList], IsClean slot := by
    intro slot hslot
    obtain rfl := List.mem_singleton.1 hslot
    exact Sheet.split_eq_singleton_iff.1 (by decide)
  have hallowed : ({} : Conditions).denial ≠ .everything := by decide
  obtain ⟨⟨s, h, hreopen, -, hiff⟩, -⟩ :=
    reopened_slots_iff isFresh_width rfl hreturns leadsTo_width {} hallowed
  rw [hnow] at hiff
  exact ⟨s, h, hreopen, hiff.2 hclean⟩

/-- The width is set to a text of two lines. -/
def twoLines : Call := ⟨0, "\"x\"=2\nmm".toList, none⟩

/-- **A text of two lines** is one slot of the handle, and two for the next opener. -/
theorem reopened_two_slots : width.Returns twoLines ∧
    (width.step twoLines).sheet.slots = ["\"x\"=2\nmm".toList] ∧
    ∃ s h, (width.step twoLines).reopen ⟨[], ["a.txt".toList]⟩ {} {} = (.ok s, h) ∧
      s.slots = ["\"x\"=2".toList, "mm".toList] :=
  ⟨⟨_, rfl⟩, rfl, _, _, rfl, by decide⟩

end SlotWrites

end EquationSheet
