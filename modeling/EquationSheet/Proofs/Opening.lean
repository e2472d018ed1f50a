import EquationSheet.Proofs.Coherence
import EquationSheet.Proofs.LockKeeping

/-!
# Opening a file

A window is given the path of a file, whatever the file holds. It closes the sheet it has, opens the
file, reads it as text, and looks beside it for settings before it shows the table. Faults of files
and of equations are reported on the way. Others are not: bytes that are no text, a name that is too
long once it ends as names of settings do, and what goes wrong when a sheet is closed, be it the one
held before or one whose names cannot be read.

* `SheetFile.load_of_text`, `load_of_binary`, `load_of_denied`: what opening a file does.
* `Settings.reconcile_cases`: when settings are brought up to date.
* `Settings.save_of_nodes`: saving ends as it would before a file was opened.
* `Desktop.showing_of_no_settings`: a sheet without settings is not shown.
* `SavesBeside`, `load_of_unreadable`: a sheet whose names cannot be read is closed again, if the
  settings shown can be saved beside it.
* `Offers`, `load_of_offers`: the file that a path leads to is the one that a load opens.
* `load_cases_of_closed`: how a load ends once the sheet held before was closed.
* `load_answers_iff_isSheet`: **a load is answered exactly for texts** beside which settings can be
  looked for, once the sheet held before was closed.
-/

namespace EquationSheet

/-! ### Sheets -/

namespace Disk

variable {d : Disk} {p : Path} {k : Key}

theorem pathExists_of_locateFile (hname : p.isNameable = true) (hk : d.locateFile p = .ok k) :
    d.pathExists p = .ok true := by
  unfold locateFile at hk
  unfold pathExists
  simp only [hname, Bool.not_true, Bool.false_eq_true, if_false]
  split at hk
  · simp at hk
  rename_i k' hlocate
  rw [hlocate]
  split at hk
  · rename_i hnode
    simp [hnode]
  · simp at hk
  · simp at hk

/-! Making directories depends on the nodes only, too. -/

variable {d' : Disk}

theorem locate_of_nodes (h : d'.nodes = d.nodes) (p : Path) : d'.locate p = d.locate p := by
  unfold locate
  rw [walk_of_nodes h]

theorem isDirectory_of_nodes (h : d'.nodes = d.nodes) (p : Path) :
    d'.isDirectory p = d.isDirectory p := by
  unfold isDirectory
  simp only [locate_of_nodes h, node?_of_nodes h]

theorem makeDirectory_of_nodes (h : d'.nodes = d.nodes) (p : Path) :
    (d'.makeDirectory p).map nodes = (d.makeDirectory p).map nodes := by
  unfold makeDirectory
  rw [locate_of_nodes h]
  split
  · rfl
  · rename_i k _
    rw [node?_of_nodes h k]
    split
    · rfl
    · simp only [Except.map, h]

theorem unlessThere_of_nodes (h : d'.nodes = d.nodes) (p : Path) (cause : DiskCause) :
    (d'.unlessThere p cause).1 = (d.unlessThere p cause).1 ∧
      (d'.unlessThere p cause).2.nodes = (d.unlessThere p cause).2.nodes := by
  unfold unlessThere
  rw [isDirectory_of_nodes h]
  exact ⟨rfl, h⟩

/-- What making one directory can be on two disks with the same nodes. -/
theorem makeDirectory_cases_of_nodes (h : d'.nodes = d.nodes) (p : Path) :
    (∃ cause, d'.makeDirectory p = .error cause ∧ d.makeDirectory p = .error cause) ∨
      ∃ made made', d'.makeDirectory p = .ok made' ∧ d.makeDirectory p = .ok made ∧
        made'.nodes = made.nodes := by
  have hmake := makeDirectory_of_nodes h p
  cases hd' : d'.makeDirectory p with
  | error cause =>
    cases hd : d.makeDirectory p with
    | error cause' =>
      rw [hd, hd'] at hmake
      obtain rfl := Except.error.inj hmake
      exact .inl ⟨_, rfl, rfl⟩
    | ok made => simp [hd, hd', Except.map] at hmake
  | ok made' =>
    cases hd : d.makeDirectory p with
    | error cause => simp [hd, hd', Except.map] at hmake
    | ok made =>
      rw [hd, hd'] at hmake
      exact .inr ⟨made, made', rfl, rfl, Except.ok.inj hmake⟩

theorem ensureDirectory_of_nodes (h : d'.nodes = d.nodes) (p : Path) :
    (d'.ensureDirectory p).1 = (d.ensureDirectory p).1 ∧
      (d'.ensureDirectory p).2.nodes = (d.ensureDirectory p).2.nodes := by
  unfold ensureDirectory
  rcases makeDirectory_cases_of_nodes h p with ⟨cause, hd', hd⟩ | ⟨made, made', hd', hd, hnodes⟩
  · rw [hd', hd]
    exact unlessThere_of_nodes h p cause
  · rw [hd', hd]
    exact ⟨rfl, hnodes⟩

theorem makeParts_of_nodes (h : d'.nodes = d.nodes) (root : Text) (levels : ℕ)
    (parts : List Text) :
    (d'.makeParts root levels parts).1 = (d.makeParts root levels parts).1 ∧
      (d'.makeParts root levels parts).2.nodes = (d.makeParts root levels parts).2.nodes := by
  induction parts generalizing levels with
  | nil => exact ⟨rfl, h⟩
  | cons part above ih =>
    simp only [makeParts]
    rcases makeDirectory_cases_of_nodes h ⟨root, (part :: above).reverse⟩ with
      ⟨cause, hd', hd⟩ | ⟨made, made', hd', hd, hnodes⟩
    · rw [hd', hd]
      cases cause with
      | notFound =>
        cases levels with
        | zero => exact ⟨rfl, h⟩
        | succ levels =>
          obtain ⟨hsame, hnodes⟩ := ih levels
          simp only
          generalize d'.makeParts root levels above = out' at hsame hnodes ⊢
          generalize d.makeParts root levels above = out at hsame hnodes ⊢
          obtain ⟨result, made⟩ := out
          obtain ⟨result', made'⟩ := out'
          simp only at hsame hnodes
          subst hsame
          cases result' with
          | error fault => exact ⟨rfl, hnodes⟩
          | ok _ => exact ensureDirectory_of_nodes hnodes _
      | _ => exact unlessThere_of_nodes h _ _
    · rw [hd', hd]
      exact ⟨rfl, hnodes⟩

theorem locateTarget_of_nodes (h : d'.nodes = d.nodes) (p : Path) :
    d'.locateTarget p = d.locateTarget p := by
  unfold locateTarget
  simp only [locate_of_nodes h, node?_of_nodes h]

end Disk

namespace SheetFile

variable {p : Path} {h : Host} {k : Key} {t : Text} {bytes : List UInt8}

/-- **A text is opened**, and its slots are read. -/
theorem load_of_text (hname : p.isNameable = true) (hk : h.disk.locateFile p = .ok k)
    (hallowed : h.conditions.denial ≠ .everything) (ht : h.disk.content? k = some (.text t)) :
    ∃ s h', load p h = (.ok s, h') ∧ s.slots = Sheet.split t ∧
      FileLock.Opened p h (h.disk.openKey k).1 s.lock h' := by
  obtain ⟨l, h', hacquire, hopened⟩ := FileLock.acquire_of_located hname hk hallowed
  have hcontent : h'.disk.content? k = some (.text t) := by
    rw [Disk.content?_of_nodes hopened.keeps.nodes, ht]
  unfold load
  simp only [hacquire, FileLock.read, hopened.file, Disk.openKey, hcontent]
  exact ⟨_, _, rfl, Sheet.split_unifyNewlines t, { hopened with }⟩

/-- **Bytes that are no text** are a fault, and the file is closed again. -/
theorem load_of_binary (hname : p.isNameable = true) (hk : h.disk.locateFile p = .ok k)
    (hallowed : h.conditions.denial ≠ .everything)
    (hbytes : h.disk.content? k = some (.binary bytes)) :
    ∃ h', load p h = (.error .undecodable, h') := by
  obtain ⟨l, h', hacquire, hopened⟩ := FileLock.acquire_of_located hname hk hallowed
  have hcontent : h'.disk.content? k = some (.binary bytes) := by
    rw [Disk.content?_of_nodes hopened.keeps.nodes, hbytes]
  unfold load
  simp only [hacquire, FileLock.read, hopened.file, Disk.openKey, hcontent]
  exact ⟨_, rfl⟩

/-- A file that may not be opened is a fault of files. -/
theorem load_of_denied (hdenied : h.conditions.denial = .everything) :
    ∃ h', load p h = (.error (.file (.notOpened p)), h') := by
  unfold load FileLock.acquire
  simp only [if_pos hdenied]
  exact ⟨_, rfl⟩

end SheetFile

/-! ### Settings -/

namespace Settings

variable {p : Path} {h h' : Host} {ms : Members} {fault : Fault}

theorem load_of_nodes (hnodes : h'.disk.nodes = h.disk.nodes)
    (hlimits : h'.conditions.limits = h.conditions.limits) : (load p h').1 = (load p h).1 := by
  have htext : fileText? p h'.disk = fileText? p h.disk := by
    unfold fileText?
    simp only [Disk.locateFile_of_nodes hnodes, Disk.content?_of_nodes hnodes]
  unfold load ignoring
  simp only [Disk.pathExists_of_nodes hnodes, htext, hlimits]
  split
  · rfl
  · rfl
  · split <;> rfl

/-- **Saving ends in the same way** on a disk with the same nodes, under the same conditions. -/
theorem save_of_nodes (hnodes : h'.disk.nodes = h.disk.nodes)
    (hconditions : h'.conditions = h.conditions) (p : Path) (j : Json) :
    (save p j h').1 = (save p j h).1 := by
  obtain ⟨hmake, hmade⟩ := Disk.makeParts_of_nodes hnodes p.parent.root
    h.conditions.limits.directories p.parent.parts.reverse
  unfold save Disk.makeDirectories
  rw [hconditions]
  generalize h'.disk.makeParts p.parent.root h.conditions.limits.directories _ = out' at hmake hmade ⊢
  generalize h.disk.makeParts p.parent.root h.conditions.limits.directories _ = out at hmake hmade ⊢
  obtain ⟨result, d⟩ := out
  obtain ⟨result', d'⟩ := out'
  simp only at hmake hmade
  subst hmake
  split
  · rfl
  cases result' with
  | error fault => rfl
  | ok _ =>
    simp only [Disk.locateTarget_of_nodes hmade]
    split
    · rfl
    split <;> rfl

theorem hasComments_initial : HasComments initial := by
  intro j hj
  have hinitial : initial.get? commentsKey = some (.obj []) := rfl
  exact ⟨[], Option.some.inj (hj.symm.trans hinitial)⟩

/-- Where no settings are, those of a new sheet are read. -/
theorem load_of_absent (habsent : h.disk.pathExists p ≠ .ok true) :
    (load p h).1 = match h.disk.pathExists p with
      | .ok _ => .ok initial
      | .error fault => .error (.file (.disk fault)) := by
  unfold load
  cases hexists : h.disk.pathExists p with
  | error fault => rfl
  | ok there =>
    cases there with
    | true => exact absurd hexists habsent
    | false => rfl

/-- **Bringing settings up to date** fails where their comments cannot be pruned. -/
theorem reconcile_cases (names : List Text) (now : Text) (ms : Members) :
    (∃ fault cfg, reconcile names now ms = (.error fault, cfg) ∧
      (pruneComments (names.map Text.toUtf16) ((ms.get? commentsKey).getD (.obj []))).1 =
        .error fault) ∨
    ∃ pruned cfg, reconcile names now ms = (.ok (), cfg) ∧
      pruneComments (names.map Text.toUtf16) ((ms.get? commentsKey).getD (.obj [])) =
        (.ok (), pruned) ∧ cfg.get? commentsKey = some pruned := by
  have hcomments : ((ms.putDefault commentsKey (.obj [])).get? commentsKey).getD (.obj []) =
      (ms.get? commentsKey).getD (.obj []) := by
    rw [Members.get?_putDefault, if_pos rfl, Option.getD_some]
  unfold reconcile
  simp only [hcomments]
  generalize pruneComments (names.map Text.toUtf16) ((ms.get? commentsKey).getD (.obj [])) = out
  rcases out with ⟨fault | _, pruned⟩
  · exact .inl ⟨fault, _, rfl, rfl⟩
  · refine .inr ⟨pruned, _, rfl, rfl, ?_⟩
    have hne : commentsKey ≠ lastOpenedKey := by decide
    rw [Members.get?_put, if_neg hne, Members.get?_put, if_pos rfl]

/-- Settings whose comments are an object are brought up to date, and keep an object. -/
theorem exists_reconcile (hms : HasComments ms) (names : List Text) (now : Text) :
    ∃ cfg, reconcile names now ms = (.ok (), cfg) ∧ HasComments cfg := by
  obtain ⟨comments, hobj⟩ := hms.exists_obj
  rcases reconcile_cases names now ms with ⟨fault, cfg, -, hpruned⟩ | ⟨pruned, cfg, hcfg, hpruned, hget⟩
  · rw [hobj] at hpruned
    simp [pruneComments] at hpruned
  · rw [hobj, pruneComments] at hpruned
    obtain rfl := (Prod.mk.inj hpruned).2
    refine ⟨cfg, hcfg, fun j hj => ?_⟩
    rw [hget] at hj
    exact ⟨_, (Option.some.inj hj).symm⟩

end Settings

/-! ### Showing a sheet -/

namespace Desktop

variable {d d' : Desktop} {p q s : Path} {k : Key} {t now : Text} {sheet : SheetFile}
  {names : List Text} {ms : Members} {fault : Fault} {h h' : Host} {bytes : List UInt8}
  {content : Content}

theorem settingsFor_of_load (hn : Store.names sheet.slots = .ok names) (hs : p.sidecar? = some s)
    (hload : (Settings.load s h).1 = .ok ms) : settingsFor p sheet now h =
      match Settings.reconcile names now ms with
      | (.ok (), cfg) => some cfg
      | (.error _, _) => none := by
  rcases hcfg : Settings.reconcile names now ms with ⟨fault | _, cfg⟩
  all_goals simp only [settingsFor, hn, hs, hload, hcfg]

theorem settingsFor_of_load_error (hs : p.sidecar? = some s)
    (hload : (Settings.load s h).1 = .error fault) : settingsFor p sheet now h = none := by
  unfold settingsFor
  cases Store.names sheet.slots with
  | error e => rfl
  | ok names => simp only [hs, hload]

/-- **A sheet without settings** ends in the fault that keeps them from it. -/
theorem showing_of_no_settings (hn : Store.names sheet.slots = .ok names) (hs : p.sidecar? = some s)
    (hnone : settingsFor p sheet now d.host = none) : ∃ fault,
      (d.showing p sheet now).1 = .error fault ∧
      ∀ fault', (Settings.load s d.host).1 = .error fault' → fault = fault' := by
  unfold settingsFor at hnone
  unfold showing showSheet
  simp only [hn, hs] at hnone ⊢
  generalize Settings.load s d.host = out at hnone ⊢
  rcases out with ⟨fault | ms, h⟩
  · exact ⟨fault, rfl, fun fault' h => Except.error.inj h⟩
  simp only at hnone ⊢
  generalize Settings.reconcile names now ms = out at hnone ⊢
  rcases out with ⟨fault | _, cfg⟩
  · exact ⟨fault, rfl, by simp⟩
  · simp at hnone

/-! ### Reports -/

theorem notices_saveSettings (d : Desktop) :
    d.window.notices <+: d.saveSettings.2.window.notices := by
  obtain ⟨h, notices, -, hsave⟩ := reports_saveSettings d
  rw [hsave]
  exact List.prefix_append _ _

theorem notices_letGo (d : Desktop) (outcome : Except Fault Unit) :
    (d.letGo outcome).2.window.notices = d.window.notices := by
  cases outcome <;> rfl

theorem notices_closeSheet (d : Desktop) : d.closeSheet.2.window.notices = d.window.notices := by
  rcases closeSheet_cases d with ⟨sheet, -, hclose⟩ | ⟨t, sheet, -, -, -, hclose⟩ | ⟨-, -, hclose⟩ <;>
    rw [hclose, notices_letGo] <;> rfl

/-- Closing takes no report back. -/
theorem notices_closeCurrent (d : Desktop) :
    d.window.notices <+: d.closeCurrent.2.window.notices := by
  have hsave := notices_saveSettings d
  rcases closeCurrent_cases d with ⟨-, hclose⟩ | ⟨fault, -, -, hclose⟩ | ⟨-, -, hclose⟩
  · rw [hclose]
  · rw [hclose]
    exact hsave
  · rw [hclose, notices_closeSheet]
    exact hsave

/-- The first thing reported since is an error. -/
def Complains (d d' : Desktop) : Prop :=
  ∃ message, d.window.notices ++ [.box .critical "Error" message] <+: d'.window.notices

/-- The table shows what the text of a sheet says, and the window holds the sheet. -/
structure Shows (d : Desktop) (p : Path) (t : Text) : Prop where
  held : d.window.held = .shown
  current : d.window.current = some p
  table : ∃ tbl, d.window.table = some tbl ∧ tbl.source.texts = Sheet.split t ∧
    Store.entries (Sheet.split t) = .ok tbl.rows

/-- **A sheet that comes to be shown** shows what its text says. -/
theorem shows_of_showing (hslots : sheet.slots = Sheet.split t)
    (hn : Store.names sheet.slots = .ok names) (hs : p.sidecar? = some s)
    (hcurrent : d.window.current = some p)
    (hok : (d.showing p sheet now).1 = .ok ()) : (d.showing p sheet now).2.Shows p t := by
  cases hsome : settingsFor p sheet now d.host with
  | none =>
    obtain ⟨fault, hfault, -⟩ := showing_of_no_settings hn hs hsome
    simp [hok] at hfault
  | some cfg =>
    obtain ⟨-, ⟨tbl, htbl⟩, hsame, -⟩ := showing_of_settings hsome
    refine ⟨htbl.held, hsame.trans hcurrent, tbl, htbl.table, ?_, ?_⟩
    · rw [htbl.source, SlotSource.texts, hslots]
    · rw [← hslots]
      exact htbl.rows

/-! ### Loading -/

/-- A path leads to a file of this content. -/
structure Offers (h : Host) (q : Path) (k : Key) (content : Content) : Prop where
  named : q.isNameable = true
  nameable : (h.resolve q).isNameable = true
  located : h.disk.locateFile (h.resolve q) = .ok k
  content : h.disk.content? k = some content

/-- A load opens the file that its path leads to. -/
theorem load_of_offers (hclose : d.closeCurrent = (.ok (), d')) (hq : Offers d'.host q k content) :
    d.load q now = d'.openSheet (d'.host.resolve q) now := by
  unfold load
  simp only [hclose, hq.named, Bool.not_true, Bool.false_eq_true, if_false,
    Disk.pathExists_of_locateFile hq.nameable hq.located]

/-- A file that may not be opened is reported. -/
theorem load_of_denied (now : Text) (hclose : d.closeCurrent = (.ok (), d'))
    (hq : Offers d'.host q k content) (hdenied : d'.host.conditions.denial = .everything) :
    (d.load q now).1 = .ok () ∧ Complains d' (d.load q now).2 ∧ (d.load q now).2.window.held = .nothing := by
  obtain ⟨h, hload⟩ := SheetFile.load_of_denied (p := d'.host.resolve q) hdenied
  have hheld : d'.window.held = .nothing := held_closeCurrent hclose
  rw [load_of_offers hclose hq, openSheet, hload]
  exact ⟨rfl, ⟨_, List.prefix_rfl⟩, hheld⟩

/-- Bytes that are no text are a fault. -/
theorem load_of_binary (hclose : d.closeCurrent = (.ok (), d'))
    (hq : Offers d'.host q k (.binary bytes)) (hallowed : d'.host.conditions.denial ≠ .everything) :
    (d.load q now).1 = .error .undecodable := by
  obtain ⟨h, hload⟩ := SheetFile.load_of_binary hq.nameable hq.located hallowed hq.content
  rw [load_of_offers hclose hq, openSheet, hload]

/-- A text is opened, to be shown or not. -/
theorem load_of_text (now : Text) (hclose : d.closeCurrent = (.ok (), d'))
    (hq : Offers d'.host q k (.text t)) (hallowed : d'.host.conditions.denial ≠ .everything) :
    ∃ sheet h, sheet.slots = Sheet.split t ∧
      FileLock.Opened (d'.host.resolve q) d'.host (d'.host.disk.openKey k).1 sheet.lock h ∧
      h.conditions = d'.host.conditions ∧
      d.load q now =
        (d'.hold (d'.host.resolve q) sheet h).showing (d'.host.resolve q) sheet now := by
  obtain ⟨sheet, h, hload, hslots, hopened⟩ := SheetFile.load_of_text hq.nameable hq.located hallowed
    hq.content
  have hconditions := SheetFile.conditions_load (d'.host.resolve q) d'.host
  rw [hload] at hconditions
  refine ⟨sheet, h, hslots, hopened, hconditions, ?_⟩
  rw [load_of_offers hclose hq, openSheet, hload]
  rfl

/-- The settings shown do not go too deep to be saved beside the path. -/
def SavesBeside (d : Desktop) (p : Path) : Prop :=
  ∀ cfg s, d.settings? = some cfg → p.sidecar? = some s →
    (Settings.save s (.obj cfg) d.host).1 ≠ .error .tooDeep

theorem Offers.exists_sidecar (hq : Offers h q k content) : ∃ s, (h.resolve q).sidecar? = some s := by
  have hkey : k = (h.resolve q).parts :=
    Disk.locateFile_eq (Path.not_mem_collapse _) hq.located
  exact Path.exists_sidecar (hkey ▸ Disk.ne_nil_of_content? hq.content)

/-- **Saving beside a sheet at home** goes through if it does not go too deep. -/
theorem saveSettings_of_savesBeside (hd : d.Homed) (hp : d.window.current = some p) :
    d.SavesBeside p ∧ d.saveSettings.1 = .ok () ∨
      ¬d.SavesBeside p ∧ d.saveSettings.1 = .error .tooDeep := by
  obtain ⟨s, hs⟩ := Path.exists_sidecar (hd p hp).named
  cases ht : d.window.table with
  | none =>
    refine .inl ⟨fun cfg _ hcfg => ?_, ?_⟩
    · simp [settings?, ht] at hcfg
    · unfold saveSettings
      rw [hp, ht]
  | some t =>
    have hbeside : d.SavesBeside p ↔
        (Settings.save s (.obj t.settings) d.host).1 ≠ .error .tooDeep := by
      simp [SavesBeside, settings?, ht, hs]
    have hends := Settings.save_of_home (hd p hp) hs (.obj t.settings)
    rw [hbeside]
    unfold saveSettings
    simp only [hp, ht, hs]
    generalize Settings.save s (.obj t.settings) d.host = out at hends ⊢
    obtain ⟨outcome, h⟩ := out
    rcases hends with rfl | ⟨f, rfl⟩ | ⟨rfl, -⟩
    · exact .inl ⟨by simp, rfl⟩
    · exact .inl ⟨by simp, rfl⟩
    · exact .inr ⟨by simp, rfl⟩

/-- A text whose names cannot be read is reported. It is closed again, if the settings shown can be
saved beside it. -/
theorem load_of_unreadable {e : EquationError} (now : Text) (hclose : d.closeCurrent = (.ok (), d'))
    (hq : Offers d'.host q k (.text t)) (hallowed : d'.host.conditions.denial ≠ .everything)
    (hn : Store.names (Sheet.split t) = .error e) :
    (d'.SavesBeside (d'.host.resolve q) → (d.load q now).1 = .ok () ∧
      Complains d' (d.load q now).2 ∧ (d.load q now).2.window.held = .nothing) ∧
    (¬d'.SavesBeside (d'.host.resolve q) → (d.load q now).1 = .error .tooDeep) := by
  obtain ⟨sheet, h, hslots, hopened, hconditions, hload⟩ := load_of_text now hclose hq hallowed
  set d₁ := (d'.hold (d'.host.resolve q) sheet h).alert ("Failed to read equations: " ++ e.message)
  have hshowing : (d'.hold (d'.host.resolve q) sheet h).showing (d'.host.resolve q) sheet now =
      d₁.closeCurrent := by
    unfold showing
    rw [hslots, hn]
  -- the sheet was opened just now, so its directory is there and nothing is left to write to it
  have hhomed : d₁.Homed := by
    intro p hp
    obtain rfl : d'.host.resolve q = p := Option.some.inj hp
    exact FileLock.home_of_opened hopened (Path.not_mem_collapse _)
  have hsettled : d₁.Settled := by
    intro l hl
    obtain rfl : sheet.lock = l := Option.some.inj hl
    exact hopened.settled
  have hbeside : d₁.SavesBeside (d'.host.resolve q) ↔ d'.SavesBeside (d'.host.resolve q) := by
    have hsame : ∀ s j, (Settings.save s j d₁.host).1 = (Settings.save s j d'.host).1 :=
      Settings.save_of_nodes hopened.keeps.nodes hconditions
    unfold SavesBeside
    simp only [hsame]
    rfl
  rw [hload, hshowing, ← hbeside]
  rcases saveSettings_of_savesBeside hhomed rfl with ⟨hyes, hsave⟩ | ⟨hno, hsave⟩
  · obtain ⟨d₂, hclose'⟩ := closeCurrent_of_saved hsave hsettled
    have hnotices := notices_closeCurrent d₁
    rw [hclose'] at hnotices ⊢
    exact ⟨fun _ => ⟨rfl, ⟨_, hnotices⟩, held_closeCurrent hclose'⟩, fun h => absurd hyes h⟩
  · refine ⟨fun h => absurd h hno, fun _ => ?_⟩
    have hheld : d₁.window.held ≠ .nothing := by
      simp [d₁, alert, report, hold]
    rw [closeCurrent_of_unsaved hheld hsave]

/-- Settings can be looked for beside the path: no name is too long for it. -/
def Findable (h : Host) (p : Path) : Prop :=
  ∀ s, p.sidecar? = some s → ∃ there, h.disk.pathExists s = .ok there

/-- There are no settings beside the path. -/
def Bare (h : Host) (p : Path) : Prop :=
  ∀ s, p.sidecar? = some s → h.disk.pathExists s ≠ .ok true

/-- Without settings of its own a text is shown under those of a new sheet, unless they cannot be
looked for. -/
theorem load_of_readable (now : Text) (hclose : d.closeCurrent = (.ok (), d'))
    (hq : Offers d'.host q k (.text t)) (hallowed : d'.host.conditions.denial ≠ .everything)
    (hn : Store.names (Sheet.split t) = .ok names) (hbare : Bare d'.host (d'.host.resolve q)) :
    (Findable d'.host (d'.host.resolve q) → (d.load q now).1 = .ok () ∧
      (d.load q now).2.Shows (d'.host.resolve q) t) ∧
    (¬Findable d'.host (d'.host.resolve q) → ∃ s f, (d'.host.resolve q).sidecar? = some s ∧
      d'.host.disk.pathExists s = .error f ∧ (d.load q now).1 = .error (.file (.disk f))) := by
  obtain ⟨sheet, h, hslots, hopened, hconditions, hload⟩ := load_of_text now hclose hq hallowed
  obtain ⟨s, hs⟩ := hq.exists_sidecar
  rw [← hslots] at hn
  rw [hload]
  set d₁ := d'.hold (d'.host.resolve q) sheet h
  have hnodes : d₁.host.disk.nodes = d'.host.disk.nodes := hopened.keeps.nodes
  have hsettings := Settings.load_of_nodes (p := s) hnodes (congrArg Conditions.limits hconditions)
  rw [Settings.load_of_absent (hbare s hs)] at hsettings
  constructor
  · intro hfind
    obtain ⟨there, hthere⟩ := hfind s hs
    rw [hthere] at hsettings
    obtain ⟨cfg, hcfg, -⟩ := Settings.exists_reconcile Settings.hasComments_initial names now
    have hsome : settingsFor (d'.host.resolve q) sheet now d₁.host = some cfg := by
      rw [settingsFor_of_load hn hs hsettings, hcfg]
    obtain ⟨hok, -⟩ := showing_of_settings hsome
    exact ⟨hok, shows_of_showing hslots hn hs rfl hok⟩
  · intro hfind
    cases hexists : d'.host.disk.pathExists s with
    | ok there =>
      exact absurd (fun s' hs' => ⟨there, Option.some.inj (hs.symm.trans hs') ▸ hexists⟩) hfind
    | error f =>
      rw [hexists] at hsettings
      have hnone : settingsFor (d'.host.resolve q) sheet now d₁.host = none :=
        settingsFor_of_load_error hs hsettings
      obtain ⟨fault, hfault, hsame⟩ := showing_of_no_settings (d := d₁) hn hs hnone
      exact ⟨s, f, hs, hexists, by rw [hfault, hsame _ hsettings]⟩

/-- The file is a text. Its names cannot be read, and then the settings shown can be saved beside it;
or they can, and settings can be looked for beside it. -/
def IsSheet (d : Desktop) (q : Path) (bytes : List UInt8) : Prop :=
  ∃ t, Content.ofBytes bytes = .text t ∧
    ((∃ e, Store.names (Sheet.split t) = .error e) ∧ d.SavesBeside (d.host.resolve q) ∨
      (∃ names, Store.names (Sheet.split t) = .ok names) ∧ Findable d.host (d.host.resolve q))

/-- The path may not be opened at all, or leads to a sheet. -/
def Welcomes (d : Desktop) (q : Path) (bytes : List UInt8) : Prop :=
  d.host.conditions.denial = .everything ∨ d.IsSheet q bytes

/-- The load shows the text of the file, or complains and holds nothing. -/
def Ends (d : Desktop) (q : Path) (bytes : List UInt8) (d' : Desktop) : Prop :=
  (∃ t, Content.ofBytes bytes = .text t ∧ d'.Shows (d.host.resolve q) t) ∨
    Complains d d' ∧ d'.window.held = .nothing

/-- Why a load of a file without settings ends in a fault. -/
def Spoils (d : Desktop) (q : Path) (fault : Fault) : Prop :=
  fault = .undecodable ∨ fault = .tooDeep ∧ ¬d.SavesBeside (d.host.resolve q) ∨
    ∃ s f, d.host.disk.pathExists s = .error f ∧ fault = .file (.disk f)

/-- **Once the sheet held before was closed**, it is for the file to say how the load ends. -/
theorem load_cases_of_closed (now : Text) (hclose : d.closeCurrent = (.ok (), d'))
    (hq : Offers d'.host q k (.ofBytes bytes)) (hbare : Bare d'.host (d'.host.resolve q)) :
    (d'.Welcomes q bytes ∧ (d.load q now).1 = .ok () ∧ d'.Ends q bytes (d.load q now).2) ∨
      (¬d'.Welcomes q bytes ∧ ∃ fault, (d.load q now).1 = .error fault ∧ d'.Spoils q fault) := by
  by_cases hdenied : d'.host.conditions.denial = .everything
  · obtain ⟨hok, hends⟩ := load_of_denied now hclose hq hdenied
    exact .inl ⟨.inl hdenied, hok, .inr hends⟩
  cases hcontent : Content.ofBytes bytes with
  | binary bytes' =>
    rw [hcontent] at hq
    refine .inr ⟨?_, _, load_of_binary hclose hq hdenied, .inl rfl⟩
    rintro (hdenied' | ⟨t, ht, -⟩)
    · exact hdenied hdenied'
    · simp [hcontent] at ht
  | text t =>
    rw [hcontent] at hq
    have hsheet : d'.Welcomes q bytes ↔
        (∃ e, Store.names (Sheet.split t) = .error e) ∧ d'.SavesBeside (d'.host.resolve q) ∨
          (∃ names, Store.names (Sheet.split t) = .ok names) ∧
            Findable d'.host (d'.host.resolve q) := by
      simp [Welcomes, IsSheet, hdenied, hcontent]
    rw [hsheet]
    cases hn : Store.names (Sheet.split t) with
    | error e =>
      obtain ⟨hclosed, hdeep⟩ := load_of_unreadable now hclose hq hdenied hn
      by_cases hbeside : d'.SavesBeside (d'.host.resolve q)
      · obtain ⟨hok, hends⟩ := hclosed hbeside
        exact .inl ⟨.inl ⟨⟨e, rfl⟩, hbeside⟩, hok, .inr hends⟩
      · exact .inr ⟨by simp [hbeside], _, hdeep hbeside, .inr (.inl ⟨rfl, hbeside⟩)⟩
    | ok names =>
      obtain ⟨hfound, hlost⟩ := load_of_readable now hclose hq hdenied hn hbare
      by_cases hfind : Findable d'.host (d'.host.resolve q)
      · obtain ⟨hok, hshows⟩ := hfound hfind
        exact .inl ⟨.inr ⟨⟨names, rfl⟩, hfind⟩, hok, .inl ⟨t, hcontent, hshows⟩⟩
      · obtain ⟨s, f, -, hexists, hfault⟩ := hlost hfind
        exact .inr ⟨by simp [hfind], _, hfault, .inr (.inr ⟨s, f, hexists, rfl⟩)⟩

end Desktop

/-! ### Whatever the file holds -/

namespace LockKeeping

open Desktop

variable {w : World} {q : Path} {k : Key} {bytes : List UInt8} {now : Text}

/-- The load comes to an end. Either the window shows the text that the file holds, or an error was
reported and the file is not locked. -/
def World.Answers (w : World) (now : Text) (q : Path) (k : Key) (bytes : List UInt8) : Prop :=
  (w.desk.act now (.load q)).1 = .ok none ∧
    ((∃ t, Content.ofBytes bytes = .text t ∧
        (w.act now (.load q)).desk.Shows ((w.act now .close).desk.host.resolve q) t) ∨
      Complains (w.act now .close).desk (w.act now (.load q)).desk ∧ ¬(w.act now (.load q)).Holds k)

/-- **A load ends in the fault of closing**, if the sheet held before is not given up. -/
theorem load_of_unclosed {fault : Fault} (hw : Kept w) (q : Path)
    (hfault : (w.desk.act now .close).1 = .error fault) :
    (w.desk.act now (.load q)).1 = .error fault ∧ (¬w.desk.Shallow ∨ ¬w.desk.Settled) := by
  rcases hclose : w.desk.closeCurrent with ⟨fault' | _, d'⟩
  · have hact : (w.desk.act now .close).1 = .error fault' := by simp only [act, hclose]; rfl
    obtain rfl := Except.error.inj (hact.symm.trans hfault)
    refine ⟨by simp only [act, load, hclose]; rfl,
      Classical.or_iff_not_imp_left.2 fun hshallow hsettled => ?_⟩
    obtain ⟨d₂, hends⟩ := closeCurrent_of_homed hw.homed (not_not.1 hshallow) hsettled
    simp [hclose] at hends
  · have hact : (w.desk.act now .close).1 = .ok none := by simp only [act, hclose]; rfl
    exact absurd (hact.symm.trans hfault) (by simp)

theorem closeCurrent_of_closed {outcome : Option Bool} (hok : (w.desk.act now .close).1 = .ok outcome) :
    w.desk.closeCurrent = (.ok (), (w.act now .close).desk) := by
  unfold World.act
  simp only [act] at hok ⊢
  rcases hclose : w.desk.closeCurrent with ⟨fault | _, d'⟩
  · simp [hclose, Except.map] at hok
  · rfl

/-- **A load is answered exactly for texts.** Whatever the window did before, among any other programs,
and whatever bytes the file at the path holds, with no settings beside it:

* the load comes to its end with the variables shown, or with an error and no lock, exactly if the
  sheet held before is closed without a fault, and the file may not be opened at all or is a text for
  which settings can be looked for;
* if closing the sheet held before ends in a fault the load ends in the same one, and then the settings
  shown go down too many levels or something was left to write to that sheet;
* otherwise the load ends in the fault of bytes that are no text, of a name that is too long, or of
  settings that go down too many levels to be saved beside a sheet whose names cannot be read. -/
theorem load_answers_iff_isSheet (hw : Reachable w) (now : Text)
    (hq : Offers (w.act now .close).desk.host q k (.ofBytes bytes))
    (hbare : Bare (w.act now .close).desk.host ((w.act now .close).desk.host.resolve q)) :
    (w.Answers now q k bytes ↔ (w.desk.act now .close).1 = .ok none ∧
      (w.act now .close).desk.Welcomes q bytes) ∧
    (∀ fault, (w.desk.act now .close).1 = .error fault →
      (w.desk.act now (.load q)).1 = .error fault ∧ (¬w.desk.Shallow ∨ ¬w.desk.Settled)) ∧
    ((w.desk.act now .close).1 = .ok none → ¬w.Answers now q k bytes →
      ∃ fault, (w.desk.act now (.load q)).1 = .error fault ∧
        (w.act now .close).desk.Spoils q fault) := by
  have hkept := kept_of_reachable hw
  have hload : w.desk.act now (.load q) =
      ((w.desk.load q now).1.map fun _ => none, (w.desk.load q now).2) := rfl
  cases hact : (w.desk.act now .close).1 with
  | error fault =>
    -- the load closes first, and ends there
    obtain ⟨hfault, hwhy⟩ := load_of_unclosed hkept q hact
    refine ⟨iff_of_false (fun h => ?_) (by simp), fun fault' h => ?_, by simp⟩
    · exact absurd (hfault.symm.trans h.1) (by simp)
    · obtain rfl := Except.error.inj h
      exact ⟨hfault, hwhy⟩
  | ok outcome =>
    have hclose := closeCurrent_of_closed hact
    obtain rfl : outcome = none := by
      simp only [act, hclose, Except.map] at hact
      exact (Except.ok.inj hact).symm
    rcases load_cases_of_closed now hclose hq hbare with ⟨hwelcomes, hok, hends⟩ |
      ⟨hnot, fault, hfault, hspoils⟩
    · have hanswers : w.Answers now q k bytes := by
        unfold World.Answers
        rw [hload, hok]
        refine ⟨rfl, hends.imp_right (And.imp_right fun hheld => ?_)⟩
        exact (free_of_nothing (kept_act hkept now (.load q)) hheld).none k
      exact ⟨iff_of_true hanswers ⟨rfl, hwelcomes⟩, by simp, fun _ hno => absurd hanswers hno⟩
    · have houtcome : (w.desk.act now (.load q)).1 = .error fault := by rw [hload, hfault]; rfl
      refine ⟨iff_of_false (fun h => ?_) fun h => hnot h.2, by simp,
        fun _ _ => ⟨fault, houtcome, hspoils⟩⟩
      exact absurd (houtcome.symm.trans h.1) (by simp)

/-- Two sheets, and a file that is no text. -/
def threeFiles : Host where
  disk := { nodes := [(["a.txt".toList], .file (.text "\"x\"=1mm\n".toList)),
    (["b.txt".toList], .file (.ofBytes [0x22, 0x79, 0x22, 0x3d, 0x31])),
    (["c.txt".toList], .file (.ofBytes [0xff]))] }
  directory := ⟨['/'], []⟩

/-- The first sheet is shown. -/
def firstShown : World := World.act ⟨{ host := threeFiles }, []⟩ [] (.load ⟨[], ["a.txt".toList]⟩)

theorem reachable_firstShown : Reachable firstShown := .next (.starts threeFiles rfl) (.user _ _ _)

theorem load_answers_iff_isSheet_second :
    firstShown.Answers [] ⟨[], ["b.txt".toList]⟩ ["b.txt".toList] [0x22, 0x79, 0x22, 0x3d, 0x31] := by
  have hoffers : Offers (firstShown.act [] .close).desk.host ⟨[], ["b.txt".toList]⟩ ["b.txt".toList]
      (.ofBytes [0x22, 0x79, 0x22, 0x3d, 0x31]) :=
    ⟨by decide, by decide +kernel, by decide +kernel, by decide +kernel⟩
  have hsidecar : ((firstShown.act [] .close).desk.host.resolve ⟨[], ["b.txt".toList]⟩).sidecar? =
      some ⟨['/'], ["b.cfg".toList]⟩ := by decide +kernel
  have hnone : (firstShown.act [] .close).desk.host.disk.pathExists ⟨['/'], ["b.cfg".toList]⟩ =
      .ok false := by decide +kernel
  have hbare : Bare (firstShown.act [] .close).desk.host
      ((firstShown.act [] .close).desk.host.resolve ⟨[], ["b.txt".toList]⟩) := by
    intro s hs
    obtain rfl := Option.some.inj (hsidecar.symm.trans hs)
    rw [hnone]
    simp
  have hfind : Findable (firstShown.act [] .close).desk.host
      ((firstShown.act [] .close).desk.host.resolve ⟨[], ["b.txt".toList]⟩) := by
    intro s hs
    obtain rfl := Option.some.inj (hsidecar.symm.trans hs)
    exact ⟨false, hnone⟩
  have htext : Content.ofBytes [0x22, 0x79, 0x22, 0x3d, 0x31] = .text "\"y\"=1".toList := by
    decide +kernel
  have hnames : Store.names (Sheet.split "\"y\"=1".toList) = .ok ["y".toList] := by decide +kernel
  exact (load_answers_iff_isSheet reachable_firstShown [] hoffers hbare).1.2
    ⟨by decide +kernel, .inr ⟨_, htext, .inr ⟨⟨_, hnames⟩, hfind⟩⟩⟩

/-- The file that is no text is there to be opened, and beside it is nothing. The load ends in a
fault and nothing is reported. -/
theorem bytes_unanswered :
    Offers (firstShown.act [] .close).desk.host ⟨[], ["c.txt".toList]⟩ ["c.txt".toList]
      (.ofBytes [0xff]) ∧
    (firstShown.act [] .close).desk.host.disk.pathExists ⟨['/'], ["c.cfg".toList]⟩ = .ok false ∧
    (firstShown.desk.act [] (.load ⟨[], ["c.txt".toList]⟩)).1 = .error .undecodable ∧
    (firstShown.act [] (.load ⟨[], ["c.txt".toList]⟩)).desk.window.notices =
      (firstShown.act [] .close).desk.window.notices := by
  refine ⟨⟨by decide, by decide +kernel, by decide +kernel, by decide +kernel⟩, ?_⟩
  decide +kernel

end LockKeeping

end EquationSheet
