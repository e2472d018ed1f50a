import EquationSheet.Proofs.Comments
import EquationSheet.Proofs.Directories

/-!
# Settings that are saved and loaded

Settings are written as a text and read back as the same values, in the same order. What they lack
is then added behind them. A host goes down a bounded number of levels; any value and any path stay
within some bound.

* `Json.Storable`, `Storable.exists_fits`: the values that can be read back, with enough levels.
* `Settings.missing`, `complete_eq`: what settings lack, and that it comes behind them.
* `Limits.AtLeast`: a host goes down so many levels.
* `Disk.Writable`, `save_of_writable`, `writable_of_saved`: **where settings can be saved**.
* `load_of_saved`: **what is saved is loaded**, with what it lacks, and then stays the same.
-/

namespace EquationSheet

open Text

/-! ### Values nested to any depth -/

namespace Json

variable {levels : ℕ} {j : Json}

/-- The value can be read back: its integers are not too long and its objects hold each key once. -/
inductive Storable : Json → Prop
  | null : Storable null
  | bool (b : Bool) : Storable (bool b)
  | int {n : ℤ} : IsShort n → Storable (int n)
  | float (x : Binary64) : Storable (float x)
  | str (s : Units) : Storable (str s)
  | arr {items : List Json} : (∀ j ∈ items, Storable j) → Storable (arr items)
  | obj {ms : Members} : (ms.map Prod.fst).Nodup → (∀ m ∈ ms, Storable m.2) → Storable (obj ms)

/-- More levels do no harm. -/
theorem Fits.mono {levels' : ℕ} (h : Fits levels j) (hle : levels ≤ levels') : Fits levels' j := by
  induction h generalizing levels' with
  | null => exact .null
  | bool b => exact .bool b
  | int hn => exact .int hn
  | float x => exact .float x
  | str s => exact .str s
  | arr _ ih =>
    obtain ⟨n, rfl⟩ : ∃ n, levels' = n + 1 := ⟨levels' - 1, by omega⟩
    exact .arr fun j hj => ih j hj (by omega)
  | obj hkeys _ ih =>
    obtain ⟨n, rfl⟩ : ∃ n, levels' = n + 1 := ⟨levels' - 1, by omega⟩
    exact .obj hkeys fun m hm => ih m hm (by omega)

/-- Finitely many values fit on the same number of levels. -/
theorem exists_fits_all {α : Type} {value : α → Json} {l : List α}
    (h : ∀ a ∈ l, ∃ levels, Fits levels (value a)) : ∃ levels, ∀ a ∈ l, Fits levels (value a) := by
  induction l with
  | nil => exact ⟨0, by simp⟩
  | cons a l ih =>
    obtain ⟨hfirst, hrest⟩ := List.forall_mem_cons.1 h
    obtain ⟨m, hm⟩ := hfirst
    obtain ⟨n, hn⟩ := ih hrest
    exact ⟨max m n, List.forall_mem_cons.2
      ⟨hm.mono (le_max_left m n), fun b hb => (hn b hb).mono (le_max_right m n)⟩⟩

/-- **A value fits on enough levels**, to whatever depth it is nested. -/
theorem Storable.exists_fits (h : Storable j) : ∃ levels, Fits levels j := by
  induction h with
  | null => exact ⟨0, .null⟩
  | bool b => exact ⟨0, .bool b⟩
  | int hn => exact ⟨0, .int hn⟩
  | float x => exact ⟨0, .float x⟩
  | str s => exact ⟨0, .str s⟩
  | arr _ ih =>
    obtain ⟨levels, hlevels⟩ := exists_fits_all ih
    exact ⟨levels + 1, .arr hlevels⟩
  | obj hkeys _ ih =>
    obtain ⟨levels, hlevels⟩ := exists_fits_all ih
    exact ⟨levels + 1, .obj hkeys hlevels⟩

end Json

/-- So many levels are gone down, whatever for. -/
structure Limits.AtLeast (limits : Limits) (levels : ℕ) : Prop where
  read : levels ≤ limits.read
  save : levels ≤ limits.save
  directories : levels ≤ limits.directories

/-! ### What settings lack -/

namespace Members

variable {ms ds : Members} {key : Units}

theorem mem_of_get?_eq_some {value : Json} (h : ms.get? key = some value) :
    key ∈ ms.map Prod.fst := by
  obtain ⟨before, behind, rfl, -⟩ := List.lookup_eq_some_iff.1 h
  simp

/-- Members are added in their order, unless their key is there. -/
theorem foldl_putDefault (hkeys : (ds.map Prod.fst).Nodup) (ms : Members) :
    ds.foldl (fun ms m => ms.putDefault m.1 m.2) ms =
      ms ++ ds.filter fun m => m.1 ∉ ms.map Prod.fst := by
  induction ds generalizing ms with
  | nil => simp
  | cons m ds ih =>
    obtain ⟨hnew, hkeys⟩ := List.nodup_cons.1 hkeys
    rw [List.foldl_cons, ih hkeys]
    cases hget : ms.get? m.1 with
    | some value =>
      have hthere := mem_of_get?_eq_some hget
      rw [List.filter_cons_of_neg (by simpa using hthere)]
      simp only [putDefault, hget]
    | none =>
      have hlacks := not_mem_of_get?_eq_none hget
      rw [List.filter_cons_of_pos (by simpa using hlacks)]
      simp only [putDefault, hget, List.append_assoc, List.singleton_append]
      congr 2
      -- the keys that follow are others
      refine List.filter_congr fun m' hm' => ?_
      have hne : m'.1 ≠ m.1 := fun heq => hnew (heq ▸ List.mem_map_of_mem hm')
      rw [List.map_append, decide_eq_decide]
      simp [hne]

end Members

namespace Settings

variable {ms cfg : Members} {levels : ℕ}

/-- The members that no settings lack, in the order in which they are added. -/
def defaults : Members :=
  [(versionKey, version), (commentsKey, .obj []), (lockedKey, .bool false),
    (logLevelKey, defaultLevel), (lastOpenedKey, .null)]

/-- The default members whose key the settings do not have. -/
def missing (ms : Members) : Members := defaults.filter fun m => m.1 ∉ ms.map Prod.fst

/-- **What settings lack comes behind them.** -/
theorem complete_eq (ms : Members) : complete ms = ms ++ missing ms := by
  have hkeys : (defaults.map Prod.fst).Nodup := by decide
  exact Members.foldl_putDefault hkeys ms

/-- Settings that were completed lack nothing. -/
theorem complete_complete (ms : Members) : complete (complete ms) = complete ms := by
  have hnone : missing (complete ms) = [] := by
    refine List.filter_eq_nil_iff.2 fun m hm => ?_
    rw [complete_eq, List.map_append, decide_eq_true_eq, not_not, List.mem_append]
    by_cases hthere : m.1 ∈ ms.map Prod.fst
    · exact .inl hthere
    · exact .inr (List.mem_map_of_mem (List.mem_filter.2 ⟨hm, by simpa using hthere⟩))
  rw [complete_eq (complete ms), hnone, List.append_nil]

end Settings

/-! ### Where settings can be saved -/

namespace Disk

variable {d d' : Disk} {p : Path} {t : Text}

/-- A file can be written at the path: no name is too long, and the way there leads through no file.
It ends neither at a directory nor at one that is made on the way, as a path with double dots can. -/
structure Writable (d : Disk) (p : Path) : Prop where
  nameable : p.isNameable = true
  length : p.isTooLong = false
  short : Short p.parts
  passable : d.Passable p.parts.dropLast
  apart : reached p.parts ∉ trail p.parts.dropLast
  free : d.node? (reached p.parts) ≠ some .directory

/-- The path leads to a file with the text. -/
structure HasFile (d : Disk) (p : Path) (t : Text) : Prop where
  nameable : p.isNameable = true
  length : p.isTooLong = false
  short : Short p.parts
  there : d.There p.parts.dropLast
  content : d.content? (reached p.parts) = some (.text t)

/-- The directory of a path that can be written can be made. -/
theorem Writable.canMake (h : d.Writable p) : d.CanMake p.root p.parts.dropLast := by
  obtain ⟨root, parts⟩ := p
  obtain ⟨-, hlength, hshort, hpass, -, -⟩ := h
  refine ⟨fun hne => ?_, fun part hpart => hshort part (List.mem_of_mem_dropLast hpart), hpass⟩
  rcases List.eq_nil_or_concat' parts with rfl | ⟨above, last, rfl⟩
  · exact absurd rfl hne
  · rw [List.dropLast_concat] at hne ⊢
    exact Path.isTooLong_of_concat hne hlength

theorem HasFile.writable (h : d.HasFile p t) : d.Writable p := by
  obtain ⟨hname, hlength, hshort, hthere, hcontent⟩ := h
  have hfile : d.node? (reached p.parts) ≠ some .directory := fun hnode => by
    rw [content?_of_directory hnode] at hcontent
    simp at hcontent
  exact ⟨hname, hlength, hshort, hthere.passable, fun hmem => hfile (hthere _ hmem), hfile⟩

theorem HasFile.locateFile (h : d.HasFile p t) : d.locateFile p = .ok (reached p.parts) := by
  have hnode : d.node? (reached p.parts) = some (.file (.text t)) := content?_eq_some_iff.1 h.content
  unfold Disk.locateFile
  rw [locate_eq_ok_iff.2 ⟨h.length, rfl, h.short, h.there⟩]
  simp only [hnode]

/-- **A path that can be written is written** once its directory was made. -/
theorem Makes.hasFile (hmakes : d.Makes p.parts.dropLast d') (h : d.Writable p) (t : Text) :
    d'.locateTarget p = .ok (reached p.parts) ∧
      (d'.write (reached p.parts) (.text t)).HasFile p t := by
  have hlocate : d'.locate p = .ok (reached p.parts) :=
    locate_eq_ok_iff.2 ⟨h.length, rfl, h.short, hmakes.there⟩
  have hnode : d'.node? (reached p.parts) = d.node? (reached p.parts) := hmakes.other _ h.apart
  have hne : reached p.parts ≠ [] := fun hroot => h.free (by rw [hroot]; rfl)
  constructor
  · unfold locateTarget
    rw [hlocate]
    simp only [hnode]
    split
    · exact absurd ‹_› h.free
    · rfl
  · refine ⟨h.nameable, h.length, h.short, hmakes.there.congr fun k hk => ?_, ?_⟩
    · refine node?_write_of_ne ?_ _
      rintro rfl
      exact h.apart hk
    · rw [content?_write hne, if_pos rfl]

end Disk

namespace Settings

variable {levels : ℕ} {p : Path} {h : Host} {j : Json} {ms cfg : Members} {c : Conditions}

/-- **A value is written whole** on enough levels, if there is room for it. -/
theorem written_of_room (hlevels : j.staysWithin c.limits.save = true)
    (hroom : HasRoom c j.indented) : written c j = (.ok (), j.indented) := by
  rcases written_cases c j with ⟨-, -, hall⟩ | ⟨fault, part, -, -, ⟨-, hno⟩ | ⟨-, hcut, -⟩⟩
  · exact hall
  · rw [Json.indentedWithin_of_staysWithin hlevels] at hno
    exact absurd hroom hno
  · exact absurd (hlevels.symm.trans hcut) (by simp)

theorem hasRoom_of_written (hwritten : (written c j).1 = .ok ()) : HasRoom c j.indented := by
  rcases written_cases c j with ⟨-, hroom, -⟩ | ⟨fault, part, -, hcut, -⟩
  · exact hroom
  · rw [hcut] at hwritten
    simp at hwritten

/-- **Where a file can be written settings are saved.** -/
theorem save_of_writable (hp : h.disk.Writable p)
    (hparts : p.parts.length ≤ h.conditions.limits.directories)
    (hlevels : j.staysWithin h.conditions.limits.save = true)
    (hroom : HasRoom h.conditions j.indented) : ∃ h', save p j h = (.ok (), h') ∧
      h'.conditions = h.conditions ∧ h'.disk.HasFile p j.indented := by
  have hbound : p.parts.dropLast.length ≤ h.conditions.limits.directories + 1 := by
    rw [List.length_dropLast]
    omega
  obtain ⟨d, hmade, hmakes⟩ := Disk.makeParts_of_canMake hp.canMake hbound
  obtain ⟨htarget, hfile⟩ := hmakes.hasFile hp j.indented
  have hparent := Path.isNameable_parent hp.nameable
  refine ⟨h.withDisk (d.write (Disk.reached p.parts) (.text j.indented)), ?_, rfl, hfile⟩
  unfold save Disk.makeDirectories
  rw [hparent]
  simp only [Path.parent, hmade, hp.nameable, htarget, written_of_room hlevels hroom, Bool.not_true,
    Bool.false_eq_true, if_false]

/-- **Where settings are saved** a file could be written. -/
theorem writable_of_saved (hparts : p.parts.length ≤ h.conditions.limits.directories)
    (hsaved : (save p j h).1 = .ok ()) : h.disk.Writable p := by
  unfold save Disk.makeDirectories at hsaved
  split at hsaved
  · simp at hsaved
  split at hsaved
  · simp at hsaved
  rename_i d hmade
  split at hsaved
  · simp at hsaved
  rename_i hname
  split at hsaved
  · simp at hsaved
  rename_i k htarget
  have hbound : p.parent.parts.length ≤ h.conditions.limits.directories + 1 := by
    simp only [Path.parent, List.length_dropLast]
    omega
  have hcan := Disk.canMake_of_makeParts hbound (by rw [hmade])
  obtain ⟨d', hmade', hmakes⟩ := Disk.makeParts_of_canMake hcan hbound
  obtain rfl : d = d' := (Prod.mk.inj (hmade.symm.trans hmade')).2
  have hfree := Disk.node?_of_locateTarget htarget
  -- the file is where the path leads, since that was no directory
  have hlocate : d.locate p = .ok k := by
    unfold Disk.locateTarget at htarget
    split at htarget
    · simp at htarget
    · rename_i hk
      split at htarget
      · simp at htarget
      · rw [hk, Except.ok.inj htarget]
  obtain ⟨hlength, rfl, hshort, -⟩ := Disk.locate_eq_ok_iff.1 hlocate
  -- all keys on the way are directories now
  have hapart : Disk.reached p.parts ∉ Disk.trail p.parts.dropLast :=
    fun hmem => hfree (hmakes.there _ hmem)
  refine ⟨by simpa using hname, hlength, hshort, hcan.passable, hapart, ?_⟩
  rwa [← hmakes.other _ hapart]

/-- Settings that a file holds are loaded, with what they lack. -/
theorem load_of_hasFile (hfile : h.disk.HasFile p (Json.obj ms).indented)
    (hfits : Json.Fits h.conditions.limits.read (.obj ms)) : load p h = (.ok (complete ms), h) := by
  have hlocate := hfile.locateFile
  have hexists : h.disk.pathExists p = .ok true :=
    Disk.pathExists_of_locateFile hfile.nameable hlocate
  have htext : fileText? p h.disk = some (Json.obj ms).indented := by
    unfold fileText?
    rw [hlocate]
    simp only [hfile.content, Json.unifyNewlines_indented]
  have hparse : Json.parseWithin h.conditions.limits.read (Json.obj ms).indented = .ok (.obj ms) :=
    Json.parseWithin_indented hfits
  unfold load
  rw [hexists, htext]
  simp only [Option.map_some, hparse]

/-- Settings that fit are saved, with room for them, and loaded with what they lack. -/
theorem load_of_saved_of_fits (hfits : Json.Fits levels (.obj ms))
    (hlimits : h.conditions.limits.AtLeast (levels + 1))
    (hparts : p.parts.length ≤ h.conditions.limits.directories) (hp : h.disk.Writable p)
    (hroom : HasRoom h.conditions (Json.obj ms).indented) : ∃ h₁,
      save p (.obj ms) h = (.ok (), h₁) ∧ h₁.conditions = h.conditions ∧ h₁.disk.Writable p ∧
      load p h₁ = (.ok (ms ++ missing ms), h₁) := by
  have hstays : (Json.obj ms).staysWithin h.conditions.limits.save = true := by
    obtain ⟨more, hmore⟩ := Nat.exists_eq_add_of_le hlimits.save
    rw [hmore, Nat.add_right_comm]
    exact Json.staysWithin_of_fits (hfits.mono (Nat.le_add_right _ _))
  obtain ⟨h₁, hsaved, hsame, hfile⟩ := save_of_writable hp hparts hstays hroom
  have hread : Json.Fits h₁.conditions.limits.read (.obj ms) := by
    rw [hsame]
    exact hfits.mono (Nat.le_of_succ_le hlimits.read)
  rw [← complete_eq]
  exact ⟨h₁, hsaved, hsame, hfile.writable, load_of_hasFile hfile hread⟩

/-- **What is saved is loaded.** Take settings whose integers are not too long and in which every
object holds each key once, nested to any depth, and any path. There are so many levels that, on any
host that goes down these or more:

* the settings are saved exactly if a file can be written at the path, whatever is there and
  whichever directories are missing, and there is room for the settings;
* then what is loaded are the same settings, with the same values in the same order, and behind them
  those of the default members that they lack;
* and when this is saved, for which there has to be room too, the same is loaded again. -/
theorem load_of_saved (hcfg : Json.Storable (.obj cfg)) (p : Path) : ∃ enough, ∀ h : Host,
    h.conditions.limits.AtLeast enough →
    (h.disk.Writable p ∧ HasRoom h.conditions (Json.obj cfg).indented ↔
      (save p (.obj cfg) h).1 = .ok ()) ∧
    (h.disk.Writable p → HasRoom h.conditions (Json.obj cfg).indented → ∃ h₁,
      save p (.obj cfg) h = (.ok (), h₁) ∧
      load p h₁ = (.ok (cfg ++ missing cfg), h₁) ∧
      (HasRoom h.conditions (Json.obj (cfg ++ missing cfg)).indented → ∃ h₂,
        save p (.obj (cfg ++ missing cfg)) h₁ = (.ok (), h₂) ∧
        load p h₂ = (.ok (cfg ++ missing cfg), h₂))) := by
  obtain ⟨depth, hdepth⟩ := hcfg.exists_fits
  -- the comments that may be added need two levels of their own, and saving one more than reading
  refine ⟨max p.parts.length (depth + 3), fun h hlimits => ?_⟩
  have hparts : p.parts.length ≤ h.conditions.limits.directories :=
    le_trans (le_max_left _ _) hlimits.directories
  have hle := le_max_right p.parts.length (depth + 3)
  have hdeep : h.conditions.limits.AtLeast (depth + 2 + 1) :=
    ⟨hle.trans hlimits.read, hle.trans hlimits.save, hle.trans hlimits.directories⟩
  have hfits : Json.Fits (depth + 2) (.obj cfg) := hdepth.mono (Nat.le_add_right _ _)
  refine ⟨⟨fun ⟨hp, hroom⟩ => ?_, fun hsaved => ⟨writable_of_saved hparts hsaved, ?_⟩⟩,
    fun hp hroom => ?_⟩
  · obtain ⟨h₁, hsaved, -⟩ := load_of_saved_of_fits hfits hdeep hparts hp hroom
    rw [hsaved]
  · exact hasRoom_of_written (congrArg Prod.fst (written_of_saved hsaved))
  · obtain ⟨h₁, hsaved, hsame, hp₁, hload⟩ := load_of_saved_of_fits hfits hdeep hparts hp hroom
    refine ⟨h₁, hsaved, hload, fun hroom' => ?_⟩
    rw [← hsame] at hdeep hparts hroom'
    rw [← complete_eq] at hroom' ⊢
    obtain ⟨h₂, hsaved', -, -, hload'⟩ :=
      load_of_saved_of_fits (fits_complete hfits) hdeep hparts hp₁ hroom'
    rw [← complete_eq, complete_complete] at hload'
    exact ⟨h₂, hsaved', hload'⟩

/-- Settings with comments, and with a member that none of the others is like. -/
def nestedSettings : Members :=
  [(commentsKey, .obj [(Text.toUtf16 "x".toList, .str (Text.toUtf16 "wide".toList))]),
    (Text.toUtf16 "recent".toList, .arr [.arr [.int (-7), .float .nan], .null])]

/-- A place whose directory is not there. -/
def nestedPlace : Path := ⟨['/'], ["d".toList, "a.cfg".toList]⟩

theorem load_of_saved_nested : ∃ enough, ∀ limits : Limits, limits.AtLeast enough → ∃ h₁ h₂,
    save nestedPlace (.obj nestedSettings) { conditions := { limits } } = (.ok (), h₁) ∧
    load nestedPlace h₁ = (.ok (nestedSettings ++ missing nestedSettings), h₁) ∧
    save nestedPlace (.obj (nestedSettings ++ missing nestedSettings)) h₁ = (.ok (), h₂) ∧
    load nestedPlace h₂ = (.ok (nestedSettings ++ missing nestedSettings), h₂) := by
  have hcomments : Json.Storable
      (.obj [(Text.toUtf16 "x".toList, .str (Text.toUtf16 "wide".toList))]) :=
    .obj (by decide) (List.forall_mem_singleton.2 (.str _))
  have hinner : Json.Storable (.arr [.int (-7), .float .nan]) :=
    .arr (List.forall_mem_cons.2 ⟨.int (by unfold Json.IsShort; decide),
      List.forall_mem_singleton.2 (.float _)⟩)
  have hrecent : Json.Storable (.arr [.arr [.int (-7), .float .nan], .null]) :=
    .arr (List.forall_mem_cons.2 ⟨hinner, List.forall_mem_singleton.2 .null⟩)
  have hcfg : Json.Storable (.obj nestedSettings) :=
    .obj (by decide) (List.forall_mem_cons.2 ⟨hcomments, List.forall_mem_singleton.2 hrecent⟩)
  have hp : ({} : Disk).Writable nestedPlace :=
    ⟨by decide, by decide, by unfold Disk.Short; decide, by unfold Disk.Passable; decide, by decide,
      by decide⟩
  have hroom : ∀ limits t, HasRoom { limits } t := fun limits t room h => absurd h (by simp)
  obtain ⟨enough, h⟩ := load_of_saved hcfg nestedPlace
  refine ⟨enough, fun limits hlimits => ?_⟩
  obtain ⟨-, hround⟩ := h { conditions := { limits } } hlimits
  obtain ⟨h₁, hsaved, hload, hagain⟩ := hround hp (hroom limits _)
  obtain ⟨h₂, hsaved', hload'⟩ := hagain (hroom limits _)
  exact ⟨h₁, h₂, hsaved, hload, hsaved', hload'⟩

end Settings

end EquationSheet
