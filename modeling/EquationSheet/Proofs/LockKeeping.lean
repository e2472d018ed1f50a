import EquationSheet.Proofs.Closing

/-!
# The lock that a window keeps

A window works on its disk beside other programs, which open and close sheets as it does. Each lock
of the disk belongs to one handle that is open, of the window or of another program. The window has
at most one, for the sheet it holds. Closing gives it up, also where it cannot write what is left to
write to the sheet. But closing saves the settings first, and settings that go down too many levels
to be saved stop it.

* `Disk.OwnedBy`: the locks of a disk are those of some handles.
* `opened_cons`, `released`: opening a file adds a handle, releasing it takes the handle away.
* `ownedBy_move`, `ownedBy_edit`: a window keeps the locks with their handles.
* `World`, `Step`, `Reachable`: a window among other programs, and where they get to.
* `holds_iff`: the window holds the lock that its handle says it has.
* `window_keeps_one_lock`: **a window holds at most one lock, and none after it was closed**, unless
  its settings cannot be saved.
* `deep_settings_keep_lock`: such settings keep the lock.
-/

namespace EquationSheet

/-! ### Locks and handles -/

/-- The handle says that it has the lock of an open file: it took the lock, and was not closed. -/
structure FileLock.Has (l : FileLock) (f : OpenFile) : Prop where
  file : l.file = some f
  locked : l.locked = true
  unspent : l.spent = false

/-- All locks of the disk are those of the handles, each of its own open file. -/
structure Disk.OwnedBy (d : Disk) (ls : List FileLock) : Prop where
  /-- whoever owns a lock says so -/
  owner : ∀ k id, (k, id) ∈ d.owners → ∃ l ∈ ls, l.Has ⟨id, k⟩
  /-- whoever says so owns the lock -/
  has : ∀ l ∈ ls, ∀ f, l.Has f → d.owners.lookup f.key = some f.id
  /-- files still to be opened are other ones -/
  opened : ∀ l ∈ ls, ∀ f, l.file = some f → f.id < d.nextId
  apart : ls.Pairwise fun l l' => ∀ f f', l.file = some f → l'.file = some f' → f.id ≠ f'.id

namespace Disk.OwnedBy

variable {d d' : Disk} {ls ls' : List FileLock} {l : FileLock} {f : OpenFile} {p : Path}
  {h h' : Host}

theorem nil (hd : d.owners = []) : d.OwnedBy [] :=
  ⟨by simp [hd], by simp, by simp, .nil⟩

theorem perm (hd : d.OwnedBy ls) (hperm : ls.Perm ls') : d.OwnedBy ls' where
  owner k id hk := by
    obtain ⟨l, hl, hhas⟩ := hd.owner k id hk
    exact ⟨l, hperm.mem_iff.1 hl, hhas⟩
  has l hl := hd.has l (hperm.mem_iff.2 hl)
  opened l hl := hd.opened l (hperm.mem_iff.2 hl)
  apart := hd.apart.perm hperm fun h f f' hf hf' => (h f' f hf' hf).symm

/-- Only what has to do with locks matters. -/
theorem congr (hd : d.OwnedBy ls) (howners : d'.owners = d.owners) (hnext : d.nextId ≤ d'.nextId) :
    d'.OwnedBy ls where
  owner k id hk := hd.owner k id (howners ▸ hk)
  has l hl f hhas := by
    rw [howners]
    exact hd.has l hl f hhas
  opened l hl f hf := (hd.opened l hl f hf).trans_le hnext
  apart := hd.apart

/-- **Opening a file adds a handle.** -/
theorem opened_cons (hd : h.disk.OwnedBy ls) (hopened : FileLock.Opened p h f l h') :
    h'.disk.OwnedBy (l :: ls) where
  owner k id hk := by
    have hold : (k, id) ∈ h.disk.owners → ∃ l' ∈ l :: ls, l'.Has ⟨id, k⟩ := by
      intro hmem
      obtain ⟨l', hl', hhas⟩ := hd.owner k id hmem
      exact ⟨l', List.mem_cons_of_mem _ hl', hhas⟩
    rcases hopened.owners with hsame | ⟨hlocked, -, hnew⟩
    · exact hold (hsame ▸ hk)
    · rw [hnew] at hk
      rcases List.mem_cons.1 hk with hfirst | hmem
      · obtain ⟨rfl, rfl⟩ := Prod.mk.inj hfirst
        exact ⟨l, List.mem_cons_self, hopened.file, hlocked, hopened.spent⟩
      · exact hold hmem
  has l' hl' f' hhas := by
    rcases List.mem_cons.1 hl' with rfl | hmem
    · obtain rfl := Option.some.inj (hopened.file.symm.trans hhas.file)
      exact hopened.locked hhas.locked
    · exact hopened.keeps.owners _ _ (hd.opened l' hmem f' hhas.file) (hd.has l' hmem f' hhas)
  opened l' hl' f' hf' := by
    rw [hopened.nextId]
    rcases List.mem_cons.1 hl' with rfl | hmem
    · obtain rfl := Option.some.inj (hopened.file.symm.trans hf')
      rw [hopened.id]
      exact Nat.lt_succ_self _
    · exact Nat.lt_succ_of_lt (hd.opened l' hmem f' hf')
  apart := by
    refine List.pairwise_cons.2 ⟨fun l' hmem f₁ f' hf₁ hf' => ?_, hd.apart⟩
    obtain rfl := Option.some.inj (hopened.file.symm.trans hf₁)
    have hlt := hd.opened l' hmem f' hf'
    have hid := hopened.id
    omega

/-- A handle that has no lock can go. -/
theorem tail (hd : d.OwnedBy (l :: ls)) (hno : ∀ f, ¬l.Has f) : d.OwnedBy ls where
  owner k id hk := by
    obtain ⟨l', hl', hhas⟩ := hd.owner k id hk
    rcases List.mem_cons.1 hl' with rfl | hrest
    · exact absurd hhas (hno _)
    · exact ⟨l', hrest, hhas⟩
  has l' hl' := hd.has l' (List.mem_cons_of_mem _ hl')
  opened l' hl' := hd.opened l' (List.mem_cons_of_mem _ hl')
  apart := (List.pairwise_cons.1 hd.apart).2

/-- **Closing a file takes its handle away.** -/
theorem closed (hd : d.OwnedBy (l :: ls)) : (l.closeFile d).OwnedBy ls := by
  have hafter := List.pairwise_cons.1 hd.apart
  unfold FileLock.closeFile
  split
  · rename_i f hf
    refine ⟨fun k id hk => ?_, fun l' hl' f' hhas => ?_, fun l' hl' f' hf' => ?_, hafter.2⟩
    · -- what is left does not belong to the file just closed
      obtain ⟨hmem, hne⟩ := List.mem_filter.1 hk
      obtain ⟨l', hl', hhas⟩ := hd.owner k id hmem
      rcases List.mem_cons.1 hl' with rfl | hrest
      · obtain rfl := Option.some.inj (hf.symm.trans hhas.file)
        simp at hne
      · exact ⟨l', hrest, hhas⟩
    · have howns := hd.has l' (List.mem_cons_of_mem _ hl') f' hhas
      exact Disk.lookup_unlock howns (hafter.1 l' hl' f f' hf hhas.file).symm
    · exact hd.opened l' (List.mem_cons_of_mem _ hl') f' hf'
  · rename_i hnone
    exact hd.tail fun f hhas => absurd (hnone.symm.trans hhas.file) (by simp)

theorem nextId_flush (d : Disk) (f : OpenFile) : (d.flush f).nextId = d.nextId :=
  (Disk.Touches.flush d f).nextId

theorem owners_flush (d : Disk) (f : OpenFile) : (d.flush f).owners = d.owners :=
  (Disk.Touches.flush d f).owners

theorem nextId_tryRelease (l : FileLock) (h : Host) :
    (l.tryRelease h).2.2.disk.nextId = h.disk.nextId := by
  rcases l.tryRelease_cases h with ⟨-, hout⟩ | ⟨f, -, ⟨-, hout⟩ |
    ⟨-, -, -, h', hout, -, hdisk⟩ | ⟨-, -, h', hout, -, hdisk⟩⟩ <;> rw [hout]
  · rw [hdisk]
    rfl
  · rw [hdisk]
    exact nextId_flush h.disk f

/-- **Releasing a lock takes its handle away**, also where this fails. -/
theorem released (hd : h.disk.OwnedBy (l :: ls)) : (l.tryRelease h).2.2.disk.OwnedBy ls := by
  have hclosed := hd.closed
  rcases l.tryRelease_cases h with ⟨hnone, hout⟩ | ⟨f, hf, ⟨hspent, hout⟩ |
    ⟨-, -, -, h', hout, -, hdisk⟩ | ⟨-, -, h', hout, -, hdisk⟩⟩ <;> rw [hout]
  · exact hd.tail fun f hhas => absurd (hnone.symm.trans hhas.file) (by simp)
  · exact hd.tail fun f hhas => absurd (hspent.symm.trans hhas.unspent) (by simp)
  · rw [FileLock.closeFile, hf] at hclosed
    rw [hdisk]
    exact hclosed.congr rfl le_rfl
  · rw [FileLock.closeFile, hf] at hclosed
    rw [hdisk]
    refine hclosed.congr ?_ (nextId_flush h.disk f).ge
    exact congrArg (List.filter _) (owners_flush h.disk f)

/-- **A handle that is released** is left without a lock. -/
theorem released_cons (hd : h.disk.OwnedBy (l :: ls)) :
    (∀ f, ¬(l.tryRelease h).2.1.Has f) ∧
      (l.tryRelease h).2.2.disk.OwnedBy ((l.tryRelease h).2.1 :: ls) := by
  have hrest := hd.released
  have hafter := List.pairwise_cons.1 hd.apart
  have hno : ∀ f, ¬(l.tryRelease h).2.1.Has f := fun f hhas =>
    l.not_isOpen_tryRelease h ⟨by rw [hhas.file]; rfl, hhas.unspent⟩
  -- where closing failed the handle still has its file, which is the one it had
  have hfile : ∀ f, (l.tryRelease h).2.1.file = some f → l.file = some f := by
    intro f hf
    rcases l.tryRelease_file h with hsame | hnone
    · rw [← hsame, hf]
    · simp [hnone] at hf
  refine ⟨hno, fun k id hk => ?_, fun l' hl' f' hhas => ?_, fun l' hl' f' hf' => ?_, ?_⟩
  · obtain ⟨l', hl', hhas⟩ := hrest.owner k id hk
    exact ⟨l', List.mem_cons_of_mem _ hl', hhas⟩
  · rcases List.mem_cons.1 hl' with rfl | hmem
    · exact absurd hhas (hno f')
    · exact hrest.has l' hmem f' hhas
  · rcases List.mem_cons.1 hl' with rfl | hmem
    · rw [nextId_tryRelease]
      exact hd.opened l List.mem_cons_self f' (hfile f' hf')
    · exact hrest.opened l' hmem f' hf'
  · exact List.pairwise_cons.2 ⟨fun l' hl' f f' hf => hafter.1 l' hl' f f' (hfile f hf), hafter.2⟩

/-- A file that was opened and closed again leaves the locks as they were. -/
theorem shut (hd : h.disk.OwnedBy ls) (hshut : FileLock.Shut p h h') : h'.disk.OwnedBy ls := by
  rcases hshut with hsame | ⟨f, l, h₁, hopened, hclosed⟩
  · rw [hsame]
    exact hd
  · rw [hclosed]
    exact (hd.opened_cons hopened).closed

/-- The owner of a lock is one of the handles. -/
theorem exists_of_lookup {k : Key} {id : ℕ} (hd : d.OwnedBy ls) (hk : d.owners.lookup k = some id) :
    ∃ l ∈ ls, l.Has ⟨id, k⟩ := by
  obtain ⟨before, after, howners, -⟩ := List.lookup_eq_some_iff.1 hk
  exact hd.owner k id (by rw [howners]; simp)

end Disk.OwnedBy

/-! ### What a window does to the locks -/

namespace Desktop

variable {d d' : Desktop} {others : List FileLock}

/-- **A move keeps the locks with their handles**, the one of the window among them. -/
theorem ownedBy_move (hmove : Move d d')
    (hd : d.host.disk.OwnedBy (d.heldLock.toList ++ others)) :
    d'.host.disk.OwnedBy (d'.heldLock.toList ++ others) := by
  cases hmove with
  | reports current held table disk conditions =>
    rw [heldLock_congr held table]
    exact hd.congr (congrArg Disk.owners disk) (congrArg Disk.nextId disk).ge
  | saves current table beside =>
    rename_i p sidecar t
    obtain ⟨-, howners, hnext, -⟩ := Settings.save_frame sidecar (.obj t.settings) d.host
    exact hd.congr howners hnext.ge
  | closes =>
    cases hl : d.heldLock with
    | none =>
      rw [closeSheet_of_none hl, host_letGo, heldLock_letGo, if_pos rfl]
      rwa [hl] at hd
    | some l =>
      obtain ⟨-, hhost, hheld⟩ := closeSheet_of_heldLock hl
      rw [hl] at hd
      rw [hhost, hheld]
      split
      · exact hd.released
      · exact hd.released_cons.2
  | fails held loads => exact hd.shut (SheetFile.shut_of_load loads)
  | opens held plain loads =>
    obtain ⟨f, hopened⟩ := SheetFile.opened_of_load loads
    rw [heldLock_of_nothing held] at hd
    exact hd.opened_cons hopened
  | shows held creates =>
    rw [heldLock_shows held creates]
    exact hd

/-- **An edit** leaves the locks alone. -/
theorem ownedBy_edit (hd : d.host.disk.OwnedBy (d.heldLock.toList ++ others)) (row column : ℤ)
    (v : Scalar) (role : CellRole) : (d.edit row column v role).2.host.disk.OwnedBy
      ((d.edit row column v role).2.heldLock.toList ++ others) := by
  rw [heldLock_edit]
  obtain ⟨howners, hnext⟩ := (writes_edit d row column v role).owners
  exact hd.congr howners hnext.ge

end Desktop

/-! ### A window among other programs -/

namespace LockKeeping

/-- A window on a host, and the handles that other programs have open there. -/
structure World where
  desk : Desktop
  others : List FileLock

namespace World

def disk (w : World) : Disk := w.desk.host.disk

/-- The user does something in the window. -/
def act (w : World) (now : Text) (action : UserAction) : World :=
  { w with desk := (w.desk.act now action).2 }

/-- The lock of the file is taken, and by no other program: the window holds it. -/
def Holds (w : World) (k : Key) : Prop :=
  ∃ id, w.disk.owners.lookup k = some id ∧ ∀ l ∈ w.others, ∀ f, l.file = some f → f.id ≠ id

/-- Another program holds the lock of the file. -/
def OthersHold (w : World) (k : Key) : Prop :=
  ∃ l ∈ w.others, ∃ f, l.file = some f ∧ w.disk.owners.lookup k = some f.id

/-- A handle that is not open can open the file for writing. -/
structure CanOpen (w : World) (l : FileLock) (k : Key) : Prop where
  closed : l.file = none
  nameable : l.path.isNameable = true
  located : w.disk.locateFile l.path = .ok k
  allowed : w.desk.host.conditions.denial = .nothing

/-- The window holds no lock and is in nobody's way: who can open a file that no other program has
locked gets its lock. -/
structure Free (w : World) : Prop where
  none : ∀ k, ¬w.Holds k
  locks : ∀ l k, w.CanOpen l k → ¬w.OthersHold k →
    ∃ l' h, l.acquire w.desk.host = (.ok (true, l'), h) ∧ l'.locked = true

end World

/-- What happens to a window among other programs. -/
inductive Step : World → World → Prop
  /-- the user does something, which may end in a fault -/
  | user (w : World) (now : Text) (action : UserAction) : Step w (w.act now action)
  /-- another program opens a file -/
  | opens {w : World} {p : Path} {l : FileLock} {h : Host}
      (acquires : ({ path := p } : FileLock).acquire w.desk.host = (.ok (true, l), h)) :
      Step w ⟨{ w.desk with host := h }, l :: w.others⟩
  /-- another program closes a file -/
  | closes {w : World} {l : FileLock} (member : l ∈ w.others) :
      Step w ⟨{ w.desk with host := (l.release w.desk.host).2 }, w.others.erase l⟩
  /-- anything else changes on the host; locks stay, and so do directories -/
  | changes {w : World} {h : Host} (owners : h.disk.owners = w.disk.owners)
      (nextId : w.disk.nextId ≤ h.disk.nextId) (directories : w.disk.KeepsDirectories h.disk) :
      Step w ⟨{ w.desk with host := h }, w.others⟩

/-- What a new window gets to, on a host where nothing was locked before. -/
inductive Reachable : World → Prop
  | starts (h : Host) (unlocked : h.disk.owners = []) : Reachable ⟨{ host := h }, []⟩
  | next {w w' : World} (reachable : Reachable w) (step : Step w w') : Reachable w'

/-- The invariant: the sheet opened last is where it was opened, below directories that are there,
and the locks are those of the handles. -/
structure Kept (w : World) : Prop where
  placed : w.desk.Placed
  homed : w.desk.Homed
  locks : w.disk.OwnedBy (w.desk.heldLock.toList ++ w.others)

variable {w w' : World} {k k' : Key} {l : FileLock}

open Desktop

theorem kept_first (h : Host) (hfree : h.disk.owners = []) : Kept ⟨{ host := h }, []⟩ :=
  ⟨placed_first h, fun _ hp => absurd hp (by simp), .nil hfree⟩

theorem kept_act (hw : Kept w) (now : Text) (action : UserAction) : Kept (w.act now action) := by
  refine preserves_act (P := fun d => Kept ⟨d, w.others⟩) (fun d d' hmove hd => ?_)
    (fun d row column v role hd => ?_) hw now action
  · exact ⟨placed_move hmove hd.placed, homed_move hmove hd.homed, ownedBy_move hmove hd.locks⟩
  · exact ⟨placed_edit hd.placed row column v role, homed_edit hd.placed hd.homed row column v role,
      ownedBy_edit hd.locks row column v role⟩

/-- What happens on the host leaves the window to the invariant of the disk. -/
theorem kept_host {h : Host} {others : List FileLock} (hw : Kept w)
    (hdirectories : w.disk.KeepsDirectories h.disk)
    (hlocks : h.disk.OwnedBy (w.desk.heldLock.toList ++ others)) :
    Kept ⟨{ w.desk with host := h }, others⟩ :=
  ⟨⟨hw.placed.plain, hw.placed.held, hw.placed.closed⟩, hw.homed.mono rfl hdirectories, hlocks⟩

/-- **Whatever happens keeps the invariant.** -/
theorem kept_step (hw : Kept w) (hstep : Step w w') : Kept w' := by
  cases hstep with
  | user now action => exact kept_act hw now action
  | @opens p l h acquires =>
    rcases FileLock.acquire_cases p w.desk.host with ⟨r, h', hr, hne, -⟩ | ⟨f, l', h', hr, hopened⟩
    · rw [acquires, Prod.mk.injEq] at hr
      exact absurd hr.1.symm (hne l)
    · rw [acquires] at hr
      obtain ⟨hl, rfl⟩ := Prod.mk.inj hr
      obtain ⟨-, rfl⟩ := Prod.mk.inj (Except.ok.inj hl)
      exact kept_host hw (Disk.keepsDirectories_of_nodes hopened.keeps.nodes)
        ((hw.locks.opened_cons hopened).perm List.perm_middle.symm)
  | @closes l member =>
    -- the handle that is closed may stand anywhere among the others
    have hperm := ((List.perm_cons_erase member).append_left w.desk.heldLock.toList).trans
      List.perm_middle
    have hlocks : w.desk.host.disk.OwnedBy (l :: (w.desk.heldLock.toList ++ w.others.erase l)) :=
      hw.locks.perm hperm
    exact kept_host hw (l.keepsDirectories_tryRelease w.desk.host) hlocks.released
  | changes owners nextId directories =>
    exact kept_host hw directories (hw.locks.congr owners nextId)

theorem kept_of_reachable (hw : Reachable w) : Kept w := by
  induction hw with
  | starts h unlocked => exact kept_first h unlocked
  | next reachable step ih => exact kept_step ih step

/-! ### What the window holds -/

/-- **The window holds the lock that its handle says it has**, and no other. -/
theorem holds_iff (hw : Kept w) :
    w.Holds k ↔ ∃ l f, w.desk.heldLock = some l ∧ l.Has f ∧ f.key = k := by
  constructor
  · rintro ⟨id, hk, hothers⟩
    obtain ⟨l, hl, hhas⟩ := hw.locks.exists_of_lookup hk
    rcases List.mem_append.1 hl with hheld | hother
    · exact ⟨l, ⟨id, k⟩, Option.mem_toList.1 hheld, hhas, rfl⟩
    · exact absurd rfl (hothers l hother ⟨id, k⟩ hhas.file)
  · rintro ⟨l, f, hl, hhas, rfl⟩
    have hmem : l ∈ w.desk.heldLock.toList := Option.mem_toList.2 hl
    have howns := hw.locks.has l (List.mem_append_left _ hmem) f hhas
    have hapart := (List.pairwise_append.1 hw.locks.apart).2.2 l hmem
    exact ⟨f.id, howns, fun l' hl' f' hf' => (hapart l' hl' f f' hhas.file hf').symm⟩

/-- A lock that is taken is held by the window or by another program. -/
theorem holds_of_lookup {id : ℕ} (hk : w.disk.owners.lookup k = some id) (hno : ¬w.OthersHold k) :
    w.Holds k := by
  refine ⟨id, hk, fun l hl f hf hid => hno ⟨l, hl, f, hf, ?_⟩⟩
  rw [hk, hid]

/-- A handle locks a file that is not locked. -/
theorem acquire_locks (hl : w.CanOpen l k) (hk : w.disk.owners.lookup k = none) :
    ∃ l' h, l.acquire w.desk.host = (.ok (true, l'), h) ∧ l'.locked = true := by
  have hlocated : w.desk.host.disk.locateFile l.path = .ok k := hl.located
  have hfree : w.desk.host.disk.owners.lookup k = none := hk
  unfold FileLock.acquire
  simp only [hl.allowed, hl.nameable, FileLock.acquireWritable, hlocated, FileLock.reopen,
    FileLock.drop, hl.closed, FileLock.takeLock, Disk.tryLock, Disk.openKey, Disk.forget,
    Host.withDisk, hfree, Bool.not_true, Bool.false_eq_true, reduceCtorEq, if_false]
  exact ⟨_, _, rfl, rfl⟩

/-- **A window whose handle has no lock** holds none, and is in nobody's way. -/
theorem free_of_has (hw : Kept w) (hno : ∀ l f, w.desk.heldLock = some l → ¬l.Has f) : w.Free := by
  have hnone : ∀ k, ¬w.Holds k := by
    intro k hk
    obtain ⟨l, f, hl, hhas, -⟩ := (holds_iff hw).1 hk
    exact hno l f hl hhas
  refine ⟨hnone, fun l k hl hno => acquire_locks hl ?_⟩
  cases hk : w.disk.owners.lookup k with
  | none => rfl
  | some id => exact absurd (holds_of_lookup hk hno) (hnone k)

theorem free_of_nothing (hw : Kept w) (hheld : w.desk.window.held = .nothing) : w.Free :=
  free_of_has hw fun l f hl => by
    rw [heldLock_of_nothing hheld] at hl
    exact absurd hl (by simp)

/-- **A sheet that is given up is not locked any more**, also where closing its file fails. -/
theorem not_has_closeSheet {d : Desktop} {others : List FileLock} {f : OpenFile}
    (hd : d.host.disk.OwnedBy (d.heldLock.toList ++ others)) (hl : d.closeSheet.2.heldLock = some l) :
    ¬l.Has f := by
  obtain ⟨l', hl', -, rfl, -⟩ := exists_of_heldLock_closeSheet hl
  rw [hl'] at hd
  exact hd.released_cons.1 f

/-- **Closing a window frees the lock** if the settings are saved first, or need not be. -/
theorem free_of_saved (hw : Kept w) (now : Text)
    (hsaved : w.desk.window.held = .nothing ∨ w.desk.saveSettings.1 = .ok ()) :
    (w.act now .close).Free := by
  have hkept := kept_act hw now .close
  have hdesk : (w.act now .close).desk = w.desk.closeCurrent.2 := rfl
  rcases closeCurrent_cases w.desk with ⟨hheld, hclose⟩ | ⟨fault, hheld, hfault, -⟩ | ⟨-, -, hclose⟩
  · refine free_of_nothing hkept ?_
    rw [hdesk, hclose]
    exact hheld
  · rcases hsaved with hnothing | hsave
    · exact absurd hnothing hheld
    · exact absurd (hfault.symm.trans hsave) (by simp)
  · -- saving touches no lock, so the handle that is released is the one that has it
    refine free_of_has hkept fun l f hl => ?_
    rw [hdesk, hclose] at hl
    have hsame := frame_saveSettings w.desk
    have howned : w.desk.saveSettings.2.host.disk.OwnedBy
        (w.desk.saveSettings.2.heldLock.toList ++ w.others) := by
      rw [heldLock_saveSettings]
      exact hw.locks.congr hsame.2.1 hsame.2.2.1.ge
    exact not_has_closeSheet howned hl

/-- **Closing a window keeps the lock** if saving the settings ends in a fault. -/
theorem holds_of_unsaved {fault : Fault} (hheld : w.desk.window.held ≠ .nothing)
    (hfault : w.desk.saveSettings.1 = .error fault) (now : Text) :
    (w.desk.act now .close).1 = .error fault ∧
      ∀ k, (w.act now .close).Holds k ↔ w.Holds k := by
  have hclose := closeCurrent_of_unsaved hheld hfault
  refine ⟨by simp only [Desktop.act, hclose]; rfl, fun k => ?_⟩
  have howners : (w.act now .close).disk.owners = w.disk.owners := by
    unfold World.disk World.act
    simp only [Desktop.act, hclose]
    exact (frame_saveSettings w.desk).2.1
  unfold World.Holds
  rw [howners]
  rfl

/-- **A window keeps one lock.** Whatever the user has done, and whatever ended in a fault, among any
other programs that open and close sheets and change files:

* the window holds the lock of a file exactly when the handle of the sheet it holds says so, and
  that of one file at most;
* it holds none, and is in nobody's way, while it holds no sheet;
* closing it frees the lock unless saving the settings ends in a fault, also where closing the file
  fails; if nothing is left to write to the file closing comes to its end;
* if saving the settings ends in a fault, so does closing, and the window keeps the lock it held;
* that happens only where the settings go down too many levels. -/
theorem window_keeps_one_lock (hw : Reachable w) :
    (∀ k, w.Holds k ↔ ∃ l f, w.desk.heldLock = some l ∧ l.Has f ∧ f.key = k) ∧
    (∀ k k', w.Holds k → w.Holds k' → k = k') ∧
    (w.desk.window.held = .nothing → w.Free) ∧
    (∀ now, w.desk.window.held = .nothing ∨ w.desk.saveSettings.1 = .ok () →
      (w.act now .close).Free ∧ (w.desk.Settled → (w.desk.act now .close).1 = .ok none ∧
        (w.act now .close).desk.window.held = .nothing)) ∧
    (∀ now fault, w.desk.window.held ≠ .nothing → w.desk.saveSettings.1 = .error fault →
      (w.desk.act now .close).1 = .error fault ∧
        ∀ k, (w.act now .close).Holds k ↔ w.Holds k) ∧
    (∀ fault, w.desk.saveSettings.1 = .error fault → fault = .tooDeep ∧ ¬w.desk.Shallow) := by
  have hkept := kept_of_reachable hw
  refine ⟨fun k => holds_iff hkept, fun k k' hk hk' => ?_, free_of_nothing hkept,
    fun now hsaved => ⟨free_of_saved hkept now hsaved, fun hsettled => ?_⟩,
    fun now fault hheld hfault => holds_of_unsaved hheld hfault now, fun fault hfault => ?_⟩
  · obtain ⟨l, f, hl, hhas, rfl⟩ := (holds_iff hkept).1 hk
    obtain ⟨l', f', hl', hhas', rfl⟩ := (holds_iff hkept).1 hk'
    obtain rfl := Option.some.inj (hl.symm.trans hl')
    rw [Option.some.inj (hhas.file.symm.trans hhas'.file)]
  · obtain ⟨d', hclose⟩ : ∃ d', w.desk.closeCurrent = (.ok (), d') := by
      rcases hsaved with hnothing | hsave
      · unfold closeCurrent
        rw [hnothing]
        exact ⟨w.desk, rfl⟩
      · exact closeCurrent_of_saved hsave hsettled
    have hact : w.desk.act now .close = (.ok none, d') := by
      simp only [Desktop.act, hclose]
      rfl
    unfold World.act
    rw [hact]
    exact ⟨rfl, held_closeCurrent hclose⟩
  · rcases saveSettings_of_homed hkept.homed with hok | ⟨hdeep, hshallow⟩
    · exact absurd (hok.symm.trans hfault) (by simp)
    · exact ⟨Except.error.inj (hfault.symm.trans hdeep), hshallow⟩

/-- A sheet beside settings that cannot be brought up to date. -/
def brokenSettings : Host where
  disk := { nodes := [(["a.txt".toList], .file (.text "\"x\"=1mm\n".toList)),
    (["a.cfg".toList], .file (.text "\x7b\"comments\": null\x7d".toList))] }
  directory := ⟨['/'], []⟩

/-- The sheet is opened. -/
def openedWorld (h : Host) : World := World.act ⟨{ host := h }, []⟩ [] (.load ⟨[], ["a.txt".toList]⟩)

theorem reachable_openedWorld {h : Host} (hfree : h.disk.owners = []) : Reachable (openedWorld h) :=
  .next (.starts h hfree) (.user _ _ _)

/-- The sheet that could not be shown is locked all the same; once the window is closed, another
program locks it. -/
theorem window_keeps_one_lock_unshown :
    (Desktop.act { host := brokenSettings } [] (.load ⟨[], ["a.txt".toList]⟩)).1 = .error .wrongKind ∧
    (openedWorld brokenSettings).Holds ["a.txt".toList] ∧
    ((openedWorld brokenSettings).act [] .close).Free ∧
    ∃ l h, ({ path := ⟨['/'], ["a.txt".toList]⟩ } : FileLock).acquire
      ((openedWorld brokenSettings).act [] .close).desk.host = (.ok (true, l), h) ∧
      l.locked = true := by
  have hreach : Reachable (openedWorld brokenSettings) := reachable_openedWorld rfl
  obtain ⟨-, -, -, hclose, -, -⟩ := window_keeps_one_lock hreach
  obtain ⟨hfree, -⟩ := hclose [] (.inr (by decide +kernel))
  refine ⟨by decide +kernel, ⟨0, by decide +kernel, fun l hl => absurd hl List.not_mem_nil⟩, hfree, ?_⟩
  refine hfree.locks _ ["a.txt".toList] ⟨rfl, by decide, by decide +kernel, by decide +kernel⟩ ?_
  rintro ⟨l, hl, -⟩
  exact absurd hl List.not_mem_nil

/-- Settings on so many levels, with a number on the innermost. -/
def deepText (levels : ℕ) : Text :=
  "\x7b\"a\": ".toList ++ List.replicate (levels - 2) '[' ++ "\x7b\"x\": 1.5\x7d".toList ++
    List.replicate (levels - 2) ']' ++ ['\x7d']

/-- A sheet beside settings that can just be read, on a host that goes down four levels. -/
def deepSettings : Host where
  disk := { nodes := [(["a.txt".toList], .file (.text "\"x\"=1mm\n".toList)),
    (["a.cfg".toList], .file (.text (deepText 4)))] }
  conditions := { limits := { read := 4, save := 4 } }
  directory := ⟨['/'], []⟩

/-- **Settings that can be read and not be saved** keep the lock of their sheet: the sheet is shown
under them, closing it ends in a fault, and it is locked still. -/
theorem deep_settings_keep_lock :
    Reachable (openedWorld deepSettings) ∧
    (Desktop.act { host := deepSettings } [] (.load ⟨[], ["a.txt".toList]⟩)).1 = .ok none ∧
    ((openedWorld deepSettings).desk.act [] .close).1 = .error .tooDeep ∧
    ((openedWorld deepSettings).act [] .close).Holds ["a.txt".toList] :=
  ⟨reachable_openedWorld rfl, by decide +kernel, by decide +kernel, 0, by decide +kernel,
    fun _ hl => absurd hl List.not_mem_nil⟩

end LockKeeping

end EquationSheet
