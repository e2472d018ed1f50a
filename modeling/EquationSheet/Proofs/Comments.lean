import EquationSheet.Proofs.JsonFits
import EquationSheet.Proofs.Sidecars

/-!
# Comments kept beside a sheet

A comment is a member of the comments of the settings of a sheet. It is kept when the settings are
completed, when they are reconciled with the names of the sheet, and when they are written beside it
and read from there again.

* `Settings.comment?`: the comment on a variable.
* `Settings.Neat`: settings that can be read again once they were written, with comments that are an
  object.
* `comment?_complete`, `comment?_reconcile`, `comment?_setComment`: what becomes of a comment.
* `Host.keptComment?`: the comment kept beside a sheet.
* `keptComment?_of_saved`, `load_of_legible`: **a comment that was saved is read again**.
* `content?_of_saved`, `pathExists_of_saved`: what saving settings leaves.
-/

namespace EquationSheet

open Text

/-! ### Names as keys -/

namespace Text

/-- The units of a code point tell it, and where they end. -/
theorem charUnits_append_inj {c c' : Char} {s s' : Units} (h : charUnits c ++ s = charUnits c' ++ s') :
    c = c' ∧ s = s' := by
  have hchar : ∀ {c c' : Char}, c.toNat = c'.toNat → c = c' := fun h => Char.ext (UInt32.toNat_inj.1 h)
  have hvalid : ∀ c : Char, c.toNat < 55296 ∨ 57343 < c.toNat ∧ c.toNat < 1114112 := fun c => c.valid
  have hc := hvalid c
  have hc' := hvalid c'
  unfold charUnits at h
  simp only at h
  split at h <;> split at h
  all_goals
    simp only [List.cons_append, List.nil_append, List.cons.injEq, ← UInt16.toNat_inj,
      UInt16.toNat_ofNat'] at h
  · exact ⟨hchar (by omega), h.2⟩
  -- a surrogate is no code point
  · omega
  · omega
  · exact ⟨hchar (by omega), h.2.2⟩

/-- **Different names are different keys.** -/
theorem toUtf16_injective : Function.Injective toUtf16 := by
  intro t
  have hne : ∀ (c : Char) (t : Text), toUtf16 (c :: t) ≠ [] := by
    intro c t h
    have hunits : charUnits c ++ toUtf16 t = [] := h
    unfold charUnits at hunits
    simp only at hunits
    split at hunits <;> simp at hunits
  induction t with
  | nil =>
    intro t' h
    cases t' with
    | nil => rfl
    | cons c' t' => exact absurd h.symm (hne c' t')
  | cons c t ih =>
    intro t' h
    cases t' with
    | nil => exact absurd h (hne c t)
    | cons c' t' =>
      have hunits : charUnits c ++ toUtf16 t = charUnits c' ++ toUtf16 t' := h
      obtain ⟨rfl, hrest⟩ := charUnits_append_inj hunits
      rw [ih hrest]

end Text

/-! ### Comments in settings -/

namespace Settings

variable {levels : ℕ} {ms cfg : Members} {names : List Text} {name name' now t : Text}

/-- The comment on a variable, if there is one. -/
def comment? (ms : Members) (name : Text) : Option Json :=
  match (ms.get? commentsKey).getD (.obj []) with
  | .obj comments => Members.get? comments name.toUtf16
  | _ => none

/-- Settings that can be read again once they were written, by who goes down so many levels, with
comments that are an object. -/
structure Neat (levels : ℕ) (ms : Members) : Prop where
  fits : Json.Fits levels (.obj ms)
  comments : HasComments ms

theorem comment?_of_obj {comments : Members}
    (h : (ms.get? commentsKey).getD (.obj []) = .obj comments) :
    comment? ms name = Members.get? comments name.toUtf16 := by
  unfold comment?
  rw [h]

theorem comment?_complete (ms : Members) (name : Text) :
    comment? (complete ms) name = comment? ms name := by
  unfold comment?
  rw [get?_complete, Option.getD_some]

theorem get?_filter {p : Units × Json → Bool} {key : Units} (hp : ∀ j, p (key, j) = true) :
    Members.get? (ms.filter p) key = ms.get? key := by
  unfold Members.get?
  induction ms with
  | nil => rfl
  | cons m ms ih =>
    obtain ⟨k, v⟩ := m
    by_cases hk : key = k
    · subst hk
      simp [hp]
    · rw [List.filter_cons]
      split
      · simp [List.lookup_cons, beq_false_of_ne hk, ih]
      · simp [List.lookup_cons, beq_false_of_ne hk, ih]

/-- **Reconciling keeps the comments** on the variables that are there. -/
theorem comment?_reconcile (hms : HasComments ms) (hcfg : reconcile names now ms = (.ok (), cfg))
    (hname : name ∈ names) : comment? cfg name = comment? ms name := by
  obtain ⟨comments, hobj⟩ := hms.exists_obj
  rcases reconcile_cases names now ms with ⟨fault, cfg', hfault, -⟩ |
    ⟨pruned, cfg', hcfg', hpruned, hget⟩
  · simp [hcfg] at hfault
  obtain rfl : cfg = cfg' := by simpa [hcfg] using hcfg'
  rw [hobj, pruneComments] at hpruned
  obtain rfl := (Prod.mk.inj hpruned).2
  have hkept : ∀ j : Json, (names.map toUtf16).contains ((name.toUtf16, j) : Units × Json).1 = true :=
    fun j => by simpa using ⟨name, hname, rfl⟩
  rw [comment?_of_obj hobj, comment?_of_obj (by rw [hget]; rfl), get?_filter hkept]

/-- **Setting a comment** sets that one and no other. -/
theorem comment?_setComment (hcfg : setComment ms name t = .ok cfg) (name' : Text) :
    comment? cfg name' = if name' = name then some (.str t.toUtf16) else comment? ms name' := by
  unfold setComment at hcfg
  split at hcfg
  · rename_i comments hobj
    obtain rfl := Except.ok.inj hcfg
    rw [comment?_of_obj hobj, comment?_of_obj (by rw [Members.get?_put, if_pos rfl]; rfl),
      Members.get?_put]
    by_cases h : name' = name
    · rw [if_pos h, if_pos (by rw [h])]
    · rw [if_neg h, if_neg (toUtf16_injective.ne h)]
  · simp at hcfg

/-! ### Settings that can be read again -/

/-- The comments are nested one level less than the settings. -/
theorem fits_comments (h : Json.Fits (levels + 2) (.obj ms)) :
    Json.Fits (levels + 1) ((ms.get? commentsKey).getD (.obj [])) := by
  cases hget : ms.get? commentsKey with
  | none => exact .obj (by simp) (by simp)
  | some j => exact h.get? hget

theorem fits_version : Json.Fits levels version := .int (by unfold Json.IsShort; decide)

/-- Completed settings fit where the settings do, and the comments. -/
theorem fits_complete (h : Json.Fits (levels + 2) (.obj ms)) :
    Json.Fits (levels + 2) (.obj (complete ms)) := by
  have hcomments : Json.Fits (levels + 1) (.obj []) := .obj (by simp) (by simp)
  unfold complete
  exact ((((h.putDefault fits_version _).putDefault hcomments _).putDefault (.bool false) _).putDefault
    (.str _) _).putDefault .null _

theorem hasComments_complete : HasComments (complete ms) ↔ HasComments ms := by
  rw [hasComments_iff, hasComments_iff, get?_complete, Option.getD_some]

theorem neat_initial : Neat (levels + 2) initial where
  fits := by
    refine .obj (by decide) ?_
    simp only [initial, List.forall_mem_cons]
    exact ⟨.obj (by simp) (by simp), .bool false, .str _, .null, fits_version, by simp⟩
  comments := hasComments_initial

/-- **Settings stay neat** when they are reconciled, and when a comment is set. -/
theorem Neat.reconcile (h : Neat levels ms) (hlevels : 2 ≤ levels)
    (hcfg : reconcile names now ms = (.ok (), cfg)) : Neat levels cfg := by
  obtain ⟨levels, rfl⟩ := Nat.exists_eq_add_of_le' hlevels
  obtain ⟨cfg', hcfg', hcomments⟩ := exists_reconcile h.comments names now
  obtain rfl : cfg = cfg' := by simpa [hcfg] using hcfg'
  refine ⟨?_, hcomments⟩
  obtain ⟨comments, hobj⟩ := h.comments.exists_obj
  have hfits := fits_comments h.fits
  unfold Settings.reconcile at hcfg
  rw [hobj] at hfits
  simp only [Members.get?_putDefault, if_pos, Option.getD_some, hobj, pruneComments] at hcfg
  obtain ⟨-, rfl⟩ := Prod.mk.inj hcfg
  exact ((h.fits.putDefault (.obj (by simp) (by simp)) _).put (hfits.filter _) _).put (.str _) _

theorem Neat.setComment (h : Neat levels ms) (hlevels : 2 ≤ levels)
    (hcfg : setComment ms name t = .ok cfg) : Neat levels cfg := by
  obtain ⟨levels, rfl⟩ := Nat.exists_eq_add_of_le' hlevels
  obtain ⟨cfg', hcfg', hcomments⟩ := exists_setComment h.comments name t
  obtain rfl := Except.ok.inj (hcfg.symm.trans hcfg')
  refine ⟨?_, hcomments⟩
  have hfits := fits_comments h.fits
  unfold Settings.setComment at hcfg
  split at hcfg
  · rename_i comments hobj
    obtain rfl := Except.ok.inj hcfg
    rw [hobj] at hfits
    exact h.fits.put (hfits.put (.str _) _) _
  · simp at hcfg

end Settings

/-! ### Comments on a disk -/

/-- The text that is kept beside a sheet. -/
def Disk.keptText? (d : Disk) (k : Key) : Option Text :=
  match d.content? (sidecarKey k) with
  | some (.text t) => some t.unifyNewlines
  | _ => none

namespace Host

variable {h h' : Host} {k : Key} {cfg : Members} {name : Text}

/-- What is kept beside a sheet, as far as it can be read. -/
def kept? (h : Host) (k : Key) : Option (Except Json.ReadFault Json) :=
  (h.disk.keptText? k).map (Json.parseWithin h.conditions.limits.read)

/-- The comment on a variable that is kept beside a sheet. -/
def keptComment? (h : Host) (k : Key) (name : Text) : Option Json :=
  match h.kept? k with
  | some (.ok (.obj ms)) => Settings.comment? ms name
  | _ => none

/-- What is kept beside a sheet is not nested too deeply, and has comments that are an object if it
is an object itself. -/
structure Legible (h : Host) (k : Key) : Prop where
  shallow : h.kept? k ≠ some (.error .tooDeep)
  comments : ∀ ms, h.kept? k = some (.ok (.obj ms)) → Settings.HasComments ms

theorem kept?_congr (hcontent : h'.disk.content? (sidecarKey k) = h.disk.content? (sidecarKey k))
    (hlimits : h'.conditions.limits = h.conditions.limits) : h'.kept? k = h.kept? k := by
  unfold kept? Disk.keptText?
  rw [hcontent, hlimits]

theorem keptComment?_congr
    (hcontent : h'.disk.content? (sidecarKey k) = h.disk.content? (sidecarKey k))
    (hlimits : h'.conditions.limits = h.conditions.limits) :
    h'.keptComment? k name = h.keptComment? k name := by
  unfold keptComment?
  rw [kept?_congr hcontent hlimits]

theorem legible_of_none (h₀ : h.disk.keptText? k = none) : h.Legible k := by
  have hnone : h.kept? k = none := by rw [kept?, h₀, Option.map_none]
  exact ⟨by rw [hnone]; simp, by rw [hnone]; simp⟩

theorem Legible.congr (hk : h.Legible k)
    (hcontent : h'.disk.content? (sidecarKey k) = h.disk.content? (sidecarKey k))
    (hlimits : h'.conditions.limits = h.conditions.limits) : h'.Legible k := by
  obtain ⟨hshallow, hcomments⟩ := hk
  rw [← kept?_congr hcontent hlimits] at hshallow hcomments
  exact ⟨hshallow, hcomments⟩

/-- Settings that were saved are read again. -/
theorem kept?_of_saved (hcfg : Settings.Neat h.conditions.limits.read cfg)
    (hsaved : h.disk.content? (sidecarKey k) = some (.text (Json.obj cfg).indented)) :
    h.kept? k = some (.ok (.obj cfg)) := by
  unfold kept? Disk.keptText?
  simp only [hsaved, Json.unifyNewlines_indented, Option.map_some,
    Json.parseWithin_indented hcfg.fits]

/-- **A comment that was saved is kept.** -/
theorem keptComment?_of_saved (hcfg : Settings.Neat h.conditions.limits.read cfg)
    (hsaved : h.disk.content? (sidecarKey k) = some (.text (Json.obj cfg).indented)) :
    h.keptComment? k name = Settings.comment? cfg name := by
  unfold keptComment?
  rw [kept?_of_saved hcfg hsaved]

theorem legible_of_saved (hcfg : Settings.Neat h.conditions.limits.read cfg)
    (hsaved : h.disk.content? (sidecarKey k) = some (.text (Json.obj cfg).indented)) :
    h.Legible k := by
  refine ⟨by simp [kept?_of_saved hcfg hsaved], fun ms hms => ?_⟩
  obtain rfl : cfg = ms := by simpa [kept?_of_saved hcfg hsaved] using hms
  exact hcfg.comments

end Host

namespace Disk

variable {d d' : Disk} {p s : Path} {k here : Key} {parts : List Text}

/-- Making directories makes no name shorter. -/
theorem Extends.walk_ne_tooLong (hd : d.Extends d') (h : d'.walk here parts = .ok k) :
    d.walk here parts ≠ .error .nameTooLong := by
  induction parts generalizing here with
  | nil => simp [walk]
  | cons part rest ih =>
    simp only [walk] at h ⊢
    split
    · rename_i hnode
      rw [hd.directory hnode] at h
      simp only at h
      split at h
      · simp at h
      · rename_i hshort
        rw [if_neg hshort]
        exact ih h
    · simp
    · simp

/-- The path of the settings of a sheet at home leads to their place, if it is not too long. -/
theorem locate_sidecar (hp : d.Home p) (hs : p.sidecar? = some s)
    (hfind : ∃ there, d.pathExists s = .ok there) : d.locate s = .ok (sidecarKey p.parts) := by
  have hkey := sidecar?_parts hs
  have hplain : ['.', '.'] ∉ s.parts := by rw [hkey]; exact not_mem_sidecarKey hp.plain
  have hwalk : d.walk [] s.parts = .ok s.parts ∨ d.walk [] s.parts = .error .nameTooLong := by
    refine walk_of_directories hplain fun pre hpre hne => ?_
    rw [hkey, sidecarKey] at hpre hne
    rcases List.prefix_concat_iff.1 hpre with heq | habove
    · exact absurd heq hne
    · exact hp.above pre habove
  obtain ⟨there, hthere⟩ := hfind
  unfold pathExists at hthere
  simp only [Path.isNameable_sidecar hp.nameable hs, Bool.not_true, Bool.false_eq_true, if_false]
    at hthere
  unfold locate at hthere ⊢
  by_cases hlong : s.isTooLong = true
  · simp [hlong] at hthere
  · rw [if_neg hlong] at hthere ⊢
    rcases hwalk with hok | hpart
    · rw [hok, hkey]
    · simp [hpart] at hthere

end Disk

namespace Settings

variable {p s : Path} {h : Host} {j : Json}

/-- The text that is read is the one that is kept beside the sheet. -/
theorem fileText?_of_locate (hlocate : h.disk.locate s = .ok (sidecarKey p.parts)) :
    fileText? s h.disk = h.disk.keptText? p.parts := by
  unfold fileText? Disk.locateFile Disk.keptText? Disk.content?
  rw [hlocate]
  simp only
  cases hnode : h.disk.node? (sidecarKey p.parts) with
  | none => rfl
  | some node =>
    cases node with
    | file content => cases content <;> simp only [hnode]
    | directory => rfl

/-- **What is kept beside a sheet is read**, with the comments it has. -/
theorem load_of_legible (hp : h.disk.Home p) (hs : p.sidecar? = some s)
    (hfind : ∃ there, h.disk.pathExists s = .ok there) (hlegible : h.Legible p.parts)
    (hlevels : 2 ≤ h.conditions.limits.read) :
    ∃ ms, (load s h).1 = .ok ms ∧ Neat h.conditions.limits.read ms ∧
      ∀ name, comment? ms name = h.keptComment? p.parts name := by
  obtain ⟨levels, hread⟩ := Nat.exists_eq_add_of_le' hlevels
  have hlocate := Disk.locate_sidecar hp hs hfind
  have hexists : h.disk.pathExists s = .ok (h.disk.node? (sidecarKey p.parts)).isSome := by
    unfold Disk.pathExists
    simp [Path.isNameable_sidecar hp.nameable hs, hlocate]
  have hkept : (fileText? s h.disk).map (Json.parseWithin h.conditions.limits.read) =
      h.kept? p.parts := by rw [fileText?_of_locate hlocate, Host.kept?]
  unfold load ignoring Host.keptComment?
  rw [hexists, hkept, hread]
  cases hnode : h.disk.node? (sidecarKey p.parts) with
  | none =>
    have hnone : h.kept? p.parts = none := by
      simp [Host.kept?, Disk.keptText?, Disk.content?, hnode]
    exact ⟨initial, rfl, neat_initial, fun name => by rw [hnone]; rfl⟩
  | some node =>
    obtain ⟨hshallow, hcomments⟩ := hlegible
    cases hkept : h.kept? p.parts with
    | none => exact ⟨initial, rfl, neat_initial, fun _ => rfl⟩
    | some read =>
      rw [hkept] at hshallow hcomments
      rcases read with (_ | _) | j
      · exact ⟨initial, rfl, neat_initial, fun _ => rfl⟩
      · simp at hshallow
      · have hfits : Json.Fits (levels + 2) j := by
          obtain ⟨t, -, hparse⟩ := Option.map_eq_some_iff.1 hkept
          rw [hread] at hparse
          exact Json.fits_of_parseWithin hparse
        cases j with
        | obj ms =>
          refine ⟨complete ms, rfl, ⟨fits_complete hfits, ?_⟩, comment?_complete ms⟩
          exact hasComments_complete.2 (hcomments ms rfl)
        | _ => exact ⟨initial, rfl, neat_initial, fun _ => rfl⟩

/-- Settings that were saved lie at their path. -/
theorem content?_of_saved (hplain : ['.', '.'] ∉ p.parts) (hne : p.parts ≠ [])
    (hsaved : (save p j h).1 = .ok ()) :
    (save p j h).2.disk.content? p.parts = some (.text j.indented) := by
  unfold save at hsaved ⊢
  split at hsaved
  · simp at hsaved
  rename_i hparent
  rw [if_neg hparent]
  split at hsaved
  · simp at hsaved
  rename_i d hmake
  split at hsaved
  · simp at hsaved
  rename_i hname
  split at hsaved
  · simp at hsaved
  rename_i k htarget
  obtain rfl := Disk.locateTarget_eq hplain htarget
  have hwhole := (written_isPrefix h.conditions j).2 hsaved
  simp only [if_neg hname, Host.withDisk_disk, Disk.content?_write hne, if_pos, hwhole]

/-- What was saved was written whole. -/
theorem written_of_saved (hsaved : (save p j h).1 = .ok ()) :
    written h.conditions j = (.ok (), j.indented) := by
  unfold save at hsaved
  split at hsaved
  · simp at hsaved
  split at hsaved
  · simp at hsaved
  split at hsaved
  · simp at hsaved
  split at hsaved
  · simp at hsaved
  · exact Prod.ext hsaved ((written_isPrefix h.conditions j).2 hsaved)

/-- A path that settings can be saved at can be looked for. -/
theorem pathExists_of_saved (hsaved : (save p j h).1 = .ok ()) :
    ∃ there, h.disk.pathExists p = .ok there := by
  have hmade := Disk.extends_makeDirectories h.disk h.conditions.limits.directories p.parent
  unfold save at hsaved
  split at hsaved
  · simp at hsaved
  split at hsaved
  · simp at hsaved
  rename_i d hmake
  rw [hmake] at hmade
  split at hsaved
  · simp at hsaved
  split at hsaved
  · simp at hsaved
  rename_i k htarget
  have hlocate : d.locate p = .ok k := by
    unfold Disk.locateTarget at htarget
    split at htarget
    · simp at htarget
    · rename_i hk
      split at htarget
      · simp at htarget
      · rw [hk, Except.ok.inj htarget]
  unfold Disk.pathExists Disk.locate
  unfold Disk.locate at hlocate
  split
  · exact ⟨_, rfl⟩
  split at hlocate
  · simp at hlocate
  rename_i hlong
  rw [if_neg hlong]
  have hshort := hmade.walk_ne_tooLong hlocate
  cases hwalk : h.disk.walk [] p.parts with
  | ok k' => exact ⟨_, rfl⟩
  | error cause =>
    rw [hwalk] at hshort
    cases cause <;> simp at hshort ⊢

end Settings

end EquationSheet
