import EquationSheet.Proofs.Moves

/-!
# What closing comes to

Before a sheet is given up its settings are saved, and a fault of files on the way is reported and
does not stop the closing. Any other fault does. As long as the directory of the sheet opened last is
there it can only be that the settings go down too many levels: no row of directories has to be made,
and the settings have a name. What may fail after that is closing the file, if an edit of a value has
left something to write to it.

* `Disk.Home`: a path names a file below directories that are there.
* `home_of_opened`: a sheet that was opened is at home.
* `Settings.save_of_home`: beside it settings are saved, or a fault of files says why not, or they go
  down too many levels.
* `closeCurrent_of_homed`: so **closing comes to its end** where the settings shown can be saved and
  nothing is left to write.
* `homed_move`, `homed_edit`: whatever a window does keeps the sheet opened last at home.
-/

namespace EquationSheet

/-! ### Directories that are there -/

namespace Disk

variable {d d' : Disk} {p : Path} {k here pre : Key} {parts : List Text}

/-- All directories stay. -/
def KeepsDirectories (d d' : Disk) : Prop :=
  ∀ k, d.node? k = some .directory → d'.node? k = some .directory

theorem keepsDirectories_of_nodes (h : d'.nodes = d.nodes) : d.KeepsDirectories d' := by
  intro k hk
  unfold node? at hk ⊢
  rwa [h]

theorem node?_write_of_ne {key : Key} (h : k ≠ key) (content : Content) :
    (d.write key content).node? k = d.node? k := by
  unfold node? write
  simp only [lookup_setNode, if_neg h]

theorem node?_of_locateTarget (h : d.locateTarget p = .ok k) : d.node? k ≠ some .directory := by
  unfold locateTarget at h
  split at h
  · simp at h
  split at h
  · simp at h
  · rename_i hnode
    obtain rfl := Except.ok.inj h
    exact hnode

/-- The path names a file below directories that are there. -/
structure Home (d : Disk) (p : Path) : Prop where
  named : p.parts ≠ []
  nameable : p.isNameable = true
  plain : ['.', '.'] ∉ p.parts
  above : ∀ k, k <+: p.parts.dropLast → d.node? k = some .directory

theorem Home.mono (hp : d.Home p) (hd : d.KeepsDirectories d') : d'.Home p :=
  { hp with above := fun k hk => hd k (hp.above k hk) }

/-- The file itself is none of the directories above it. -/
theorem Home.of_node (hp : d.Home p) (hd : ∀ k, d'.node? k = d.node? k ∨ k = p.parts) :
    d'.Home p := by
  refine { hp with above := fun k hk => ?_ }
  rw [(hd k).resolve_right]
  · exact hp.above k hk
  · rintro rfl
    have hle := hk.length_le
    have hpos := List.length_pos_iff.2 hp.named
    rw [List.length_dropLast] at hle
    omega

/-- Walking a path leaves directories behind. -/
theorem directory_of_walk (hparts : ['.', '.'] ∉ parts) (h : d.walk here parts = .ok k)
    (hpre : pre <+: parts) (hne : pre ≠ parts) : d.node? (here ++ pre) = some .directory := by
  induction parts generalizing here pre with
  | nil => exact absurd (List.prefix_nil.1 hpre) hne
  | cons part rest ih =>
    rw [List.mem_cons, not_or] at hparts
    simp only [walk] at h
    split at h
    · rename_i hdirectory
      split at h
      · simp at h
      cases pre with
      | nil => simpa using hdirectory
      | cons part' pre =>
        obtain ⟨rfl, hrest⟩ := List.cons_prefix_cons.1 hpre
        rw [step, if_neg (Ne.symm hparts.1)] at h
        have hnode := ih hparts.2 h hrest (by rintro rfl; exact hne rfl)
        simpa using hnode
    · simp at h
    · simp at h

/-- Below directories that are there, walking ends only at a part that is too long. -/
theorem walk_of_directories (hparts : ['.', '.'] ∉ parts)
    (habove : ∀ pre, pre <+: parts → pre ≠ parts → d.node? (here ++ pre) = some .directory) :
    d.walk here parts = .ok (here ++ parts) ∨ d.walk here parts = .error .nameTooLong := by
  induction parts generalizing here with
  | nil => exact .inl (by simp [walk])
  | cons part rest ih =>
    rw [List.mem_cons, not_or] at hparts
    have hhere : d.node? here = some .directory := by
      simpa using habove [] List.nil_prefix (by simp)
    simp only [walk, hhere]
    split
    · exact .inr rfl
    · rw [step, if_neg (Ne.symm hparts.1)]
      have hbelow : ∀ pre, pre <+: rest → pre ≠ rest →
          d.node? (here ++ [part] ++ pre) = some .directory := by
        intro pre hpre hne
        simpa using habove (part :: pre) (List.cons_prefix_cons.2 ⟨rfl, hpre⟩) (by simpa using hne)
      have hrest := ih hparts.2 hbelow
      simpa using hrest

/-- **A directory that is there is not made**, and nothing is missing above it. -/
theorem makeDirectories_of_there (levels : ℕ) (hparts : ['.', '.'] ∉ p.parts)
    (hthere : ∀ k, k <+: p.parts → d.node? k = some .directory) :
    (d.makeDirectories levels p).1 = .ok () ∨
      ∃ f, (d.makeDirectories levels p).1 = .error (.file f) := by
  have hwalk : d.walk [] p.parts = .ok p.parts ∨ d.walk [] p.parts = .error .nameTooLong :=
    walk_of_directories hparts fun k hk _ => hthere k hk
  have hmake : d.makeDirectory p = .error .alreadyExists ∨
      d.makeDirectory p = .error .nameTooLong := by
    unfold makeDirectory locate
    by_cases hlong : p.isTooLong = true
    · rw [if_pos hlong]
      exact .inr rfl
    · rw [if_neg hlong]
      rcases hwalk with hk | hpart
      · simp only [hk, hthere _ List.prefix_rfl, true_or]
      · rw [hpart]
        exact .inr rfl
  have hunless : ∀ cause, (d.unlessThere p cause).1 = .ok () ∨
      ∃ f, (d.unlessThere p cause).1 = .error (.file f) := by
    intro cause
    unfold unlessThere
    split
    · exact .inl rfl
    · exact .inr ⟨_, rfl⟩
  unfold makeDirectories
  cases hreverse : p.parts.reverse with
  | nil => exact .inl rfl
  | cons part rest =>
    have hp : (⟨p.root, (part :: rest).reverse⟩ : Path) = p := by
      rw [← hreverse, List.reverse_reverse]
    simp only [makeParts, hp]
    rcases hmake with hexists | hlong
    · rw [hexists]
      exact hunless _
    · rw [hlong]
      exact hunless _

end Disk

/-- **A sheet that was opened is at home.** -/
theorem FileLock.home_of_opened {p : Path} {h h' : Host} {f : OpenFile} {l : FileLock}
    (hopened : Opened p h f l h') (hplain : ['.', '.'] ∉ p.parts) : h'.disk.Home p := by
  have hlocated := hopened.located
  have hkey := Disk.locateFile_eq hplain hlocated
  have hnamed : p.parts ≠ [] := by
    obtain ⟨content, hcontent⟩ := Disk.isFile_of_locateFile hlocated
    rw [← hkey]
    exact Disk.ne_nil_of_content? hcontent
  have hhome : h.disk.Home p := by
    refine ⟨hnamed, hopened.nameable, hplain, fun k hk => ?_⟩
    unfold Disk.locateFile Disk.locate at hlocated
    split at hlocated
    · simp at hlocated
    rename_i k' hwalk
    split at hwalk
    · simp at hwalk
    have hlength : k.length < p.parts.length := by
      have hle := hk.length_le
      have hpos := List.length_pos_iff.2 hnamed
      rw [List.length_dropLast] at hle
      omega
    have hnode := Disk.directory_of_walk hplain hwalk (hk.trans (List.dropLast_prefix _))
      (by rintro rfl; omega)
    simpa using hnode
  exact hhome.mono (Disk.keepsDirectories_of_nodes hopened.keeps.nodes)

/-! ### Settings beside a sheet at home -/

namespace Path

variable {p q : Path}

theorem stem_subset (name : Text) : stem name ⊆ name := by
  unfold stem
  simp only
  split
  · rename_i c before hrest
    split
    · exact fun _ hc => hc
    · intro c' hc'
      have hmem : c' ∈ name.reverse.dropWhile (· ≠ '.') := by
        rw [hrest]
        exact List.mem_cons_of_mem _ (List.mem_reverse.1 hc')
      exact List.mem_reverse.1 ((List.dropWhile_sublist _).subset hmem)
  · exact fun _ hc => hc

theorem exists_sidecar (hp : p.parts ≠ []) : ∃ q, p.sidecar? = some q := by
  unfold sidecar?
  cases hlast : p.parts.getLast? with
  | none => exact absurd (List.getLast?_eq_none_iff.1 hlast) hp
  | some name => exact ⟨_, rfl⟩

/-- A file that has a name has one for its settings. -/
theorem isNameable_sidecar (hp : p.isNameable = true) (hq : p.sidecar? = some q) :
    q.isNameable = true := by
  unfold sidecar? at hq
  split at hq
  · simp at hq
  rename_i name hname
  obtain rfl := Option.some.inj hq
  unfold isNameable at hp ⊢
  rw [List.all_eq_true] at hp ⊢
  intro part hpart
  rcases List.mem_append.1 hpart with habove | hlast
  · exact hp part (List.mem_of_mem_dropLast habove)
  · obtain rfl := List.mem_singleton.1 hlast
    have hfree := hp name (List.mem_of_getLast? hname)
    have hzero : '\x00' ∉ name := by simpa using hfree
    have hstem : '\x00' ∉ stem name := fun hmem => hzero (stem_subset name hmem)
    simp [hstem, sidecarExtension]

theorem isNameable_parent (hp : p.isNameable = true) : p.parent.isNameable = true := by
  unfold isNameable parent at *
  rw [List.all_eq_true] at hp ⊢
  exact fun part hpart => hp part (List.mem_of_mem_dropLast hpart)

end Path

/-- What saving a value ends in: a fault of files is no other fault. -/
def Settings.Ends (c : Conditions) (j : Json) (outcome : Except Fault Unit) : Prop :=
  outcome = .ok () ∨ (∃ f, outcome = .error (.file f)) ∨
    outcome = .error .tooDeep ∧ (Settings.written c j).1 = .error .tooDeep

theorem Settings.ends_written (c : Conditions) (j : Json) : Ends c j (Settings.written c j).1 := by
  rcases Settings.written_cases c j with ⟨-, -, hall⟩ | ⟨_, part, -, hcut, ⟨rfl, -⟩ | ⟨rfl, -, -⟩⟩
  · rw [hall]
    exact .inl rfl
  · rw [hcut]
    exact .inr (.inl ⟨_, rfl⟩)
  · exact .inr (.inr ⟨by rw [hcut], by rw [hcut]⟩)

/-- **Beside a sheet at home** settings are saved, or a fault of files says why they are not, or they
go down too many levels. -/
theorem Settings.save_of_home {p q : Path} {h : Host} (hp : h.disk.Home p)
    (hq : p.sidecar? = some q) (j : Json) : Ends h.conditions j (Settings.save q j h).1 := by
  have hnameable := Path.isNameable_sidecar hp.nameable hq
  have hparent : q.parent.parts = p.parts.dropLast := by
    unfold Path.parent
    simp only [sidecar?_parts hq, sidecarKey, List.dropLast_concat]
  have hmake : (h.disk.makeDirectories h.conditions.limits.directories q.parent).1 = .ok () ∨
      ∃ f, (h.disk.makeDirectories h.conditions.limits.directories q.parent).1 =
        .error (.file f) := by
    refine Disk.makeDirectories_of_there _ ?_ ?_
    · rw [hparent]
      exact fun hmem => hp.plain (List.mem_of_mem_dropLast hmem)
    · rw [hparent]
      exact hp.above
  unfold Settings.save
  rw [Path.isNameable_parent hnameable]
  simp only [Bool.not_true, Bool.false_eq_true, if_false]
  generalize h.disk.makeDirectories h.conditions.limits.directories q.parent = out at hmake ⊢
  rcases out with ⟨fault | _, d⟩
  · simp only at hmake ⊢
    rcases hmake with hok | ⟨f, hf⟩
    · simp at hok
    · exact .inr (.inl ⟨f, hf⟩)
  · simp only [hnameable, Bool.not_true, Bool.false_eq_true, if_false]
    split
    · exact .inr (.inl ⟨_, rfl⟩)
    · exact ends_written h.conditions j

/-- A text that was left to write takes no directory away. -/
theorem Disk.keepsDirectories_flush (d : Disk) (f : OpenFile) : d.KeepsDirectories (d.flush f) := by
  intro k hk
  unfold flush
  split
  · exact hk
  split
  · rename_i content hcontent
    rw [node?_write_of_ne]
    · exact hk
    · rintro rfl
      rw [content?_eq_some_iff.1 hcontent] at hk
      simp at hk
  · exact hk

/-- Nor does closing a file. -/
theorem FileLock.keepsDirectories_tryRelease (l : FileLock) (h : Host) :
    h.disk.KeepsDirectories (l.tryRelease h).2.2.disk := by
  rcases l.tryRelease_cases h with ⟨-, hout⟩ | ⟨f, -, ⟨-, hout⟩ |
    ⟨-, -, -, h', hout, -, hdisk⟩ | ⟨-, -, h', hout, -, hdisk⟩⟩ <;> rw [hout]
  · exact fun _ hk => hk
  · exact fun _ hk => hk
  · rw [hdisk]
    exact fun _ hk => hk
  · rw [hdisk]
    exact Disk.keepsDirectories_flush h.disk f

/-- Saving takes no directory away. -/
theorem Settings.keepsDirectories_save (q : Path) (j : Json) (h : Host) :
    h.disk.KeepsDirectories (Settings.save q j h).2.disk := by
  intro k hk
  obtain ⟨d, hmade, ⟨_, hsame⟩ | ⟨target, htarget, hwritten⟩⟩ := Settings.save_cases q j h
  · rw [hsame]
    exact hmade.directory hk
  · have hdirectory := hmade.directory hk
    rw [hwritten, Host.withDisk_disk, Disk.node?_write_of_ne]
    · exact hdirectory
    · rintro rfl
      exact Disk.node?_of_locateTarget htarget hdirectory

/-! ### The sheet opened last -/

namespace Desktop

variable {d d' : Desktop}

/-- The sheet opened last is at home. -/
def Homed (d : Desktop) : Prop := ∀ p, d.window.current = some p → d.host.disk.Home p

/-- The settings shown go down no more levels than can be saved. -/
def Shallow (d : Desktop) : Prop :=
  ∀ cfg, d.settings? = some cfg → (Settings.written d.host.conditions (.obj cfg)).1 ≠ .error .tooDeep

/-- Nothing is left to write to the file that is held, which is open. -/
def Settled (d : Desktop) : Prop := ∀ l, d.heldLock = some l → l.Settled d.host.disk

/-- **Saving ends in a fault** only where the settings shown go down too many levels. -/
theorem saveSettings_of_homed (hd : d.Homed) : d.saveSettings.1 = .ok () ∨
    d.saveSettings.1 = .error .tooDeep ∧ ¬d.Shallow := by
  unfold saveSettings
  split
  · rename_i p t hcurrent htable
    have hhome := hd p hcurrent
    obtain ⟨sidecar, hsidecar⟩ := Path.exists_sidecar hhome.named
    have hsave := Settings.save_of_home hhome hsidecar (.obj t.settings)
    simp only [hsidecar]
    generalize Settings.save sidecar (.obj t.settings) d.host = out at hsave ⊢
    rcases out with ⟨fault | _, h⟩
    · rcases hsave with hok | ⟨f, hf⟩ | ⟨hdeep, hwritten⟩
      · simp at hok
      · obtain rfl := Except.error.inj hf
        exact .inl rfl
      · obtain rfl := Except.error.inj hdeep
        refine .inr ⟨rfl, fun hshallow => hshallow t.settings ?_ hwritten⟩
        simp [settings?, htable]
    · exact .inl rfl
  · exact .inl rfl

theorem saveSettings_of_shallow (hd : d.Homed) (hshallow : d.Shallow) :
    d.saveSettings.1 = .ok () :=
  (saveSettings_of_homed hd).resolve_right fun hfails => hfails.2 hshallow

/-- Where nothing is left to write a sheet is given up. -/
theorem closeSheet_of_settled (hd : d.Settled) : d.closeSheet.1 = .ok () := by
  cases hl : d.heldLock with
  | none => rw [closeSheet_of_none hl, letGo_fst]
  | some l =>
    rw [(closeSheet_of_heldLock hl).1]
    exact (FileLock.tryRelease_of_settled (hd l hl)).1

theorem settled_saveSettings (hd : d.Settled) : d.saveSettings.2.Settled := by
  intro l hl
  rw [heldLock_saveSettings] at hl
  refine ⟨(hd l hl).spent, fun f hf => ?_⟩
  unfold Disk.unwritten?
  rw [(frame_saveSettings d).2.2.2]
  exact (hd l hl).written f hf

/-- What is saved beside a sheet at home is saved, and the sheet is given up. -/
theorem closeCurrent_of_saved (hsave : d.saveSettings.1 = .ok ()) (hd : d.Settled) :
    ∃ d', d.closeCurrent = (.ok (), d') := by
  rcases closeCurrent_cases d with ⟨-, hclose⟩ | ⟨fault, -, hfault, -⟩ | ⟨-, -, hclose⟩
  · exact ⟨d, hclose⟩
  · rw [hsave] at hfault
    simp at hfault
  · exact ⟨_, hclose.trans (Prod.ext (closeSheet_of_settled (settled_saveSettings hd)) rfl)⟩

/-- What cannot be saved is not given up. -/
theorem closeCurrent_of_unsaved {fault : Fault} (hheld : d.window.held ≠ .nothing)
    (hfault : d.saveSettings.1 = .error fault) :
    d.closeCurrent = (.error fault, d.saveSettings.2) := by
  rcases closeCurrent_cases d with ⟨hnothing, -⟩ | ⟨fault', -, hfault', hclose⟩ | ⟨-, hsave, -⟩
  · exact absurd hnothing hheld
  · obtain rfl := Except.error.inj (hfault'.symm.trans hfault)
    exact hclose
  · exact absurd (hsave.symm.trans hfault) (by simp)

/-- **Closing comes to its end** while the sheet opened last is at home, its settings can be saved,
and nothing is left to write to it. -/
theorem closeCurrent_of_homed (hd : d.Homed) (hshallow : d.Shallow) (hsettled : d.Settled) :
    ∃ d', d.closeCurrent = (.ok (), d') :=
  closeCurrent_of_saved (saveSettings_of_shallow hd hshallow) hsettled

/-- Giving up a sheet takes no directory away. -/
theorem keepsDirectories_closeSheet (d : Desktop) :
    d.host.disk.KeepsDirectories d.closeSheet.2.host.disk := by
  cases hl : d.heldLock with
  | none =>
    rw [closeSheet_of_none hl, host_letGo]
    exact fun _ hk => hk
  | some l =>
    rw [(closeSheet_of_heldLock hl).2.1]
    exact l.keepsDirectories_tryRelease d.host

theorem Homed.mono (hd : d.Homed) (hcurrent : d'.window.current = d.window.current)
    (hdisk : d.host.disk.KeepsDirectories d'.host.disk) : d'.Homed :=
  fun p hp => (hd p (hcurrent ▸ hp)).mono hdisk

/-- **Every move keeps the sheet opened last at home.** -/
theorem homed_move (hmove : Move d d') (hd : d.Homed) : d'.Homed := by
  cases hmove with
  | reports current held table disk conditions =>
    exact hd.mono current (Disk.keepsDirectories_of_nodes (congrArg Disk.nodes disk))
  | saves current table beside => exact hd.mono rfl (Settings.keepsDirectories_save _ _ _)
  | closes => exact hd.mono (leaves_closeSheet d).current (keepsDirectories_closeSheet d)
  | fails held loads =>
    exact hd.mono rfl (Disk.keepsDirectories_of_nodes (SheetFile.shut_of_load loads).keeps.nodes)
  | opens held plain loads =>
    obtain ⟨f, hopened⟩ := SheetFile.opened_of_load loads
    intro q hq
    obtain rfl := Option.some.inj hq
    exact FileLock.home_of_opened hopened plain
  | shows held creates => exact hd

/-- **So does every edit**: it writes no more than the sheet itself. -/
theorem homed_edit (hplaced : d.Placed) (hd : d.Homed) (row column : ℤ) (v : Scalar)
    (role : CellRole) : (d.edit row column v role).2.Homed := by
  intro p hp
  rw [(window_edit d row column v role).1] at hp
  refine (hd p hp).of_node fun k => ?_
  rcases writes_edit d row column v role with hsame | ⟨f, hf, htouches⟩
  · rw [hsame]
    exact .inl rfl
  · obtain ⟨q, hq, hkey⟩ := current_of_file? hplaced hf
    obtain rfl : p = q := Option.some.inj (hp.symm.trans hq)
    exact (htouches.node k).imp_right fun hwritten => hwritten.1.trans hkey

/-- Nothing is left to write to a sheet that was opened just now. -/
theorem settled_hold {p : Path} {sheet : SheetFile} {h h₀ : Host}
    (hload : SheetFile.load p h₀ = (.ok sheet, h)) : (d.hold p sheet h).Settled := by
  intro l hl
  obtain rfl : sheet.lock = l := Option.some.inj hl
  obtain ⟨f, hopened⟩ := SheetFile.opened_of_load hload
  exact hopened.settled

/-- **Every move leaves nothing to write.** -/
theorem settled_move (hmove : Move d d') (hd : d.Settled) : d'.Settled := by
  cases hmove with
  | reports current held table disk conditions =>
    intro l hl
    rw [heldLock_congr held table] at hl
    refine ⟨(hd l hl).spent, fun f hf => ?_⟩
    have hnone := (hd l hl).written f hf
    unfold Disk.unwritten? at hnone ⊢
    rwa [show (Desktop.mk _ _).host.disk = d.host.disk from disk]
  | @saves p sidecar t current table beside =>
    intro l hl
    refine ⟨(hd l hl).spent, fun f hf => ?_⟩
    have hsame := (Settings.save_frame sidecar (.obj t.settings) d.host).2.2.2
    unfold Disk.unwritten?
    rw [hsame]
    exact (hd l hl).written f hf
  | closes =>
    -- a handle is kept only where closing failed, and without anything to write it does not
    intro l hl
    obtain ⟨l', hl', hfails, -⟩ := exists_of_heldLock_closeSheet hl
    exact absurd (FileLock.tryRelease_of_settled (hd l' hl')).1 hfails
  | fails held loads =>
    intro l hl
    have hnone : d.heldLock = none := heldLock_of_nothing held
    exact absurd (hnone.symm.trans hl) (by simp)
  | opens held plain loads => exact settled_hold loads
  | shows held creates =>
    intro l hl
    rw [heldLock_shows held creates] at hl
    exact hd l hl

/-- **So does every action.** -/
theorem homed_act (hplaced : d.Placed) (hd : d.Homed) (now : Text) (action : UserAction) :
    (d.act now action).2.Placed ∧ (d.act now action).2.Homed :=
  preserves_act (P := fun d => d.Placed ∧ d.Homed)
    (fun _ _ hmove hd => ⟨placed_move hmove hd.1, homed_move hmove hd.2⟩)
    (fun _ row column v role hd => ⟨placed_edit hd.1 row column v role,
      homed_edit hd.1 hd.2 row column v role⟩) ⟨hplaced, hd⟩ now action

end Desktop

end EquationSheet
