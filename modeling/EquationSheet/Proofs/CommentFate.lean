import EquationSheet.Proofs.Orderly

/-!
# What becomes of an accepted comment

A comment that is set goes into the settings shown, and beside the sheet only when these are saved. A
load that opens nothing gives up the sheet held but leaves its table. Comments can still be set in it,
and closing then saves nothing.

* `Safe`: the comment is kept beside the sheet, or it is shown and the sheet is held.
* `Adrift`: the comment is shown, and the sheet is not held.
* `Orderly.safe_or_adrift`: **an accepted edit** leaves the comment in one of these states.
* `Orderly.safe_succ`, `Orderly.adrift_succ`, `Orderly.safe_of_adrift`, `Orderly.safe_of_saves`: what
  one event does to it.
* `comment_fate`: **which comments are kept** when the window is closed.
-/

namespace EquationSheet.Provenance

open Desktop

section Runs

variable {h₀ : Host} {es : List Event} {m n : ℕ} {k : Key} {x : Text} {c c' : Option Json}
  {names : List Text} {e : Event}

/-- No event sets the comment on the variable in the sheet. -/
def Untouched (h₀ : Host) (es : List Event) (n : ℕ) (k : Key) (x : Text) : Prop :=
  sourceAfter h₀ es n = some k → ∀ t, es[n]?.bind (commented (deskAfter h₀ es n)) ≠ some (x, t)

/-- **The comment is safe**: it is the one shown if the sheet is shown, and it is kept beside the
sheet or will be, since the sheet is held. -/
structure Safe (h₀ : Host) (es : List Event) (n : ℕ) (k : Key) (x : Text) (c : Option Json) :
    Prop where
  comment : sourceAfter h₀ es n = some k → ∀ cfg, (deskAfter h₀ es n).settings? = some cfg →
    Settings.comment? cfg x = c
  kept : (deskAfter h₀ es n).window.held = .shown ∧ sourceAfter h₀ es n = some k ∨
    (deskAfter h₀ es n).host.keptComment? k x = c

/-- **The comment is adrift**: the sheet is shown and not held. One comment is kept beside it, and
another one is shown. -/
structure Adrift (h₀ : Host) (es : List Event) (n : ℕ) (k : Key) (x : Text) (c c' : Option Json) :
    Prop where
  source : sourceAfter h₀ es n = some k
  held : (deskAfter h₀ es n).window.held = .nothing
  kept : (deskAfter h₀ es n).host.keptComment? k x = c
  comment : ∀ cfg, (deskAfter h₀ es n).settings? = some cfg → Settings.comment? cfg x = c'

/-- The user saves the settings shown beside the sheet. -/
def SavesBeside (h₀ : Host) (es : List Event) (n : ℕ) (k : Key) : Prop :=
  ∃ now, es[n]? = some (.user now .save) ∧
    ∃ p, (deskAfter h₀ es n).window.current = some p ∧ p.parts = k

/-- The event shows a sheet, or saves the settings shown beside this one. -/
def Decides (h₀ : Host) (es : List Event) (n : ℕ) (k : Key) : Prop :=
  es[n]?.bind (shown (deskAfter h₀ es n)) ≠ none ∨ SavesBeside h₀ es n k

/-- Between two moments the settings were saved beside the sheet before any sheet was shown. -/
def SavedBetween (h₀ : Host) (es : List Event) (m n : ℕ) (k : Key) : Prop :=
  ∃ s, m < s ∧ s < n ∧ SavesBeside h₀ es s k ∧
    ∀ r, m < r → r < s → es[r]?.bind (shown (deskAfter h₀ es r)) = none

/-- What is kept of a safe comment is the comment, if no sheet is held. -/
theorem Safe.kept_of_nothing (hsafe : Safe h₀ es n k x c)
    (hheld : (deskAfter h₀ es n).window.held = .nothing) :
    (deskAfter h₀ es n).host.keptComment? k x = c := by
  rcases hsafe.kept with ⟨hshown, -⟩ | hkept
  · rw [hheld] at hshown
    exact absurd hshown (by simp)
  · exact hkept

theorem shown_of_saves (hsaves : SavesBeside h₀ es n k) :
    es[n]?.bind (shown (deskAfter h₀ es n)) = none := by
  obtain ⟨now, he, -⟩ := hsaves
  rw [he]
  rfl

/-! ### One event -/

section Fate

variable (hrun : Orderly h₀ es)

include hrun

/-- **An accepted edit** leaves the comment safe if the sheet is held, and adrift if not. -/
theorem Orderly.safe_or_adrift {t : Text}
    (hedit : es[m]?.bind (commented (deskAfter h₀ es m)) = some (x, t))
    (hsource : sourceAfter h₀ es m = some k) :
    (deskAfter h₀ es m).window.held = .shown ∧ Safe h₀ es (m + 1) k x (some (.str t.toUtf16)) ∨
    (deskAfter h₀ es m).window.held = .nothing ∧
      Adrift h₀ es (m + 1) k x ((deskAfter h₀ es m).host.keptComment? k x)
        (some (.str t.toUtf16)) := by
  obtain ⟨e, he, hcommented⟩ := Option.bind_eq_some_iff.1 hedit
  cases e with
  | outside host => simp [commented] at hcommented
  | user now action =>
    cases action with
    | edit row column v role =>
      have hplain := hrun.plain m _ he
      have hsource' : sourceAfter h₀ es (m + 1) = some k := by
        rw [sourceAfter_of_none h₀ (by rw [he]; rfl), hsource]
      have hheld : (deskAfter h₀ es (m + 1)).window.held = (deskAfter h₀ es m).window.held := by
        rw [deskAfter_succ h₀ he]
        exact (window_edit _ row column v role).2
      have hcomment : ∀ cfg, (deskAfter h₀ es (m + 1)).settings? = some cfg →
          Settings.comment? cfg x = some (.str t.toUtf16) := by
        intro cfg hcfg
        rw [deskAfter_succ h₀ he] at hcfg
        rcases commented_cases (deskAfter h₀ es m) now hplain with ⟨hnone, -⟩ |
          ⟨name, t', cfg₀, cfg', hsome, -, hset, hcfg'⟩
        · exact absurd (hcommented.symm.trans hnone) (by simp)
        · obtain ⟨rfl, rfl⟩ := Prod.mk.inj (Option.some.inj (hcommented.symm.trans hsome))
          obtain rfl := Option.some.inj (hcfg'.symm.trans hcfg)
          rw [Settings.comment?_setComment hset, if_pos rfl]
      have hkept : (deskAfter h₀ es (m + 1)).host.keptComment? k x =
          (deskAfter h₀ es m).host.keptComment? k x := by
        refine hrun.keptComment?_congr ?_
        rw [deskAfter_succ h₀ he]
        simp only [step, act, (edit_frame _ hplain).1]
      rcases (hrun.sourced m).held with hnothing | ⟨hshown, -⟩
      · exact .inr ⟨hnothing, hsource', hheld.trans hnothing, hkept, hcomment⟩
      · exact .inl ⟨hshown, fun _ => hcomment, .inl ⟨hheld.trans hshown, hsource'⟩⟩
    | _ => simp [commented] at hcommented

/-- An event that shows nothing and does not touch the comment leaves the one shown. -/
theorem Orderly.comment?_of_unshown (he : es[n]? = some e)
    (hs : shown (deskAfter h₀ es n) e = none) (hsource : sourceAfter h₀ es n = some k)
    (huntouched : Untouched h₀ es n k x)
    (hcomment : ∀ cfg, (deskAfter h₀ es n).settings? = some cfg → Settings.comment? cfg x = c) :
    ∀ cfg, (deskAfter h₀ es (n + 1)).settings? = some cfg → Settings.comment? cfg x = c := by
  intro cfg hcfg
  rw [deskAfter_succ h₀ he] at hcfg
  rcases settings_of_unshown (hrun.plain n e he) hs with hsame |
    ⟨name, t, cfg₀, cfg', hcommented, hcfg₀, hedit, hcfg'⟩
  · exact hcomment cfg (hsame ▸ hcfg)
  · obtain rfl := Option.some.inj (hcfg'.symm.trans hcfg)
    have hne : x ≠ name := by
      rintro rfl
      exact huntouched hsource t (by rw [he]; exact hcommented)
    rw [Settings.comment?_setComment hedit, if_neg hne]
    exact hcomment cfg₀ hcfg₀

/-- A comment that is kept beside a sheet is the one shown when the sheet comes to be shown. -/
theorem Orderly.safe_of_shown {k' : Key} {cfg : Members} (hat : namesAt? h₀.disk k = some names)
    (hx : x ∈ names) (he : es[n]? = some e) (hs : shown (deskAfter h₀ es n) e = some (k', cfg))
    (hkept : (deskAfter h₀ es (n + 1)).host.keptComment? k x = c) :
    Safe h₀ es (n + 1) k x c := by
  have hsource : sourceAfter h₀ es (n + 1) = some k' :=
    sourceAfter_of_shown h₀ (by rw [he]; exact hs)
  refine ⟨fun hk cfg' hcfg' => ?_, .inr hkept⟩
  obtain rfl : k' = k := Option.some.inj (hsource.symm.trans hk)
  have hbrings := brings_of_shown hs
  rw [← deskAfter_succ h₀ he] at hbrings
  obtain ⟨⟨p, hcurrent, hp⟩, -, hsettings, -, hcomments⟩ := hbrings
  obtain ⟨-, names', hnames', hat'⟩ := (hrun.sourced (n + 1)).names k' hk
  obtain rfl := Option.some.inj (hsettings.symm.trans hcfg')
  obtain rfl := Option.some.inj (hat.symm.trans hat')
  have hlegible := (hrun.neat (n + 1)).2 _ (hrun.legible (n + 1) p hcurrent)
  rw [hp] at hlegible
  rw [(hcomments hlegible (hrun.levels_at (n + 1))).2 names hnames' x hx, hkept]

/-- Whatever happens, a safe comment is kept by then, unless its sheet stays held. -/
theorem Orderly.kept_of_safe (hkey : IsSheetKey k) (hk : namesAt? h₀.disk k ≠ none)
    (he : es[n]? = some e) (hsafe : Safe h₀ es n k x c) :
    (deskAfter h₀ es (n + 1)).host.keptComment? k x = c ∨
      ¬Closes e ∧ (deskAfter h₀ es n).window.held = .shown ∧ sourceAfter h₀ es n = some k := by
  rcases hsafe.kept with ⟨hheld, hsource⟩ | hkept
  · by_cases hcloses : Closes e
    · obtain ⟨cfg, hcfg, hsaved⟩ := hrun.keptComment?_of_held he hcloses hheld hsource x
      exact .inl (hsaved.trans (hsafe.comment hsource cfg hcfg))
    · exact .inr ⟨hcloses, hheld, hsource⟩
  · rcases hrun.keptComment?_step hkey hk he x with hsame | ⟨hsource, cfg, hcfg, hsaved⟩
    · exact .inl (hsame.trans hkept)
    · exact .inl (hsaved.trans (hsafe.comment hsource cfg hcfg))

/-- **A comment that is safe stays so** until it is set again. -/
theorem Orderly.safe_succ (hkey : IsSheetKey k) (hat : namesAt? h₀.disk k = some names)
    (hx : x ∈ names) (huntouched : Untouched h₀ es n k x) (hsafe : Safe h₀ es n k x c) :
    Safe h₀ es (n + 1) k x c := by
  cases he : es[n]? with
  | none =>
    have hsource : sourceAfter h₀ es (n + 1) = sourceAfter h₀ es n :=
      sourceAfter_of_none h₀ (by rw [he]; rfl)
    constructor <;> rw [deskAfter_succ_none h₀ he, hsource]
    exacts [hsafe.comment, hsafe.kept]
  | some e =>
    have hkept := hrun.kept_of_safe hkey (by simp [hat]) he hsafe
    cases hs : shown (deskAfter h₀ es n) e with
    | some brought =>
      rcases hkept with hkept | ⟨hcloses, -⟩
      · exact hrun.safe_of_shown hat hx he hs hkept
      · exact absurd (closes_of_shown hs) hcloses
    | none =>
      have hsource : sourceAfter h₀ es (n + 1) = sourceAfter h₀ es n :=
        sourceAfter_of_none h₀ (by rw [he]; exact hs)
      refine ⟨fun hk => ?_, hkept.symm.imp_left fun ⟨hcloses, hheld, hk⟩ => ⟨?_, ?_⟩⟩
      · rw [hsource] at hk
        exact hrun.comment?_of_unshown he hs hk huntouched (hsafe.comment hk)
      · rw [deskAfter_succ h₀ he, held_of_not_closes hcloses, hheld]
      · rw [hsource, hk]

/-- **A comment that is adrift stays so** until a sheet is shown or the settings are saved beside the
sheet. -/
theorem Orderly.adrift_succ (hkey : IsSheetKey k) (hk : namesAt? h₀.disk k ≠ none)
    (huntouched : Untouched h₀ es n k x) (hquiet : ¬Decides h₀ es n k)
    (hadrift : Adrift h₀ es n k x c c') : Adrift h₀ es (n + 1) k x c c' := by
  obtain ⟨hs, hsaves⟩ := not_or.1 hquiet
  rw [not_not] at hs
  obtain ⟨hsource, hheld, hkept, hcomment⟩ := hadrift
  have hsource' := (sourceAfter_of_none h₀ hs).trans hsource
  cases he : es[n]? with
  | none =>
    rw [← deskAfter_succ_none h₀ he] at hheld hkept hcomment
    exact ⟨hsource', hheld, hkept, hcomment⟩
  | some e =>
    rw [he, Option.bind_some] at hs
    refine ⟨hsource', ?_, ?_, hrun.comment?_of_unshown he hs hsource huntouched hcomment⟩
    · by_cases hcloses : Closes e
      · exact hrun.held_of_closes he hcloses hs
      · rw [deskAfter_succ h₀ he, held_of_not_closes hcloses, hheld]
    · rw [← hkept]
      by_cases hcloses : Closes e
      · exact hrun.keptComment?_of_not_held hkey hk he hcloses hheld x
      · refine hrun.keptComment?_congr ?_
        rw [deskAfter_succ h₀ he]
        have hplain := hrun.plain n e he
        cases e with
        | outside host => exact Disk.content?_of_nodes hplain.nodes _
        | user now action =>
          cases action with
          | filter t => simp only [step, act, host_setFilter]
          | edit row column v role => simp only [step, act, (edit_frame _ hplain).1]
          | save =>
            refine content?_saveSettings_of_ne (hrun.ok n).sound hkey fun p hp hpk => ?_
            exact hsaves ⟨now, he, p, hp, hpk⟩
          | load q => exact absurd trivial hcloses
          | close => exact absurd trivial hcloses

/-- **The comment shown is lost** once a sheet is shown while it is adrift. -/
theorem Orderly.safe_of_adrift (hkey : IsSheetKey k) (hat : namesAt? h₀.disk k = some names)
    (hx : x ∈ names) (hs : es[n]?.bind (shown (deskAfter h₀ es n)) ≠ none)
    (hadrift : Adrift h₀ es n k x c c') : Safe h₀ es (n + 1) k x c := by
  obtain ⟨⟨k', cfg⟩, hbrought⟩ := Option.ne_none_iff_exists'.1 hs
  obtain ⟨e, he, hs⟩ := Option.bind_eq_some_iff.1 hbrought
  refine hrun.safe_of_shown hat hx he hs ?_
  rw [hrun.keptComment?_of_not_held hkey (by simp [hat]) he (closes_of_shown hs) hadrift.held x]
  exact hadrift.kept

/-- **Saving beside the sheet** keeps the comment shown. -/
theorem Orderly.safe_of_saves (hsaves : SavesBeside h₀ es n k)
    (hadrift : Adrift h₀ es n k x c c') : Safe h₀ es (n + 1) k x c' := by
  obtain ⟨hsource, -, -, hcomment⟩ := hadrift
  obtain ⟨now, he, p, hcurrent, rfl⟩ := hsaves
  obtain ⟨-, names, hnames, -⟩ := (hrun.sourced n).names _ hsource
  obtain ⟨cfg, hcfg⟩ := exists_settings_of_names hnames
  have hsaved := content?_saveSettings_of_canSave (hrun.canSave n) (hrun.homed n)
    (hrun.ok n).sound.plain (pending_eq_some.2 ⟨hcurrent, hcfg⟩)
  refine ⟨fun _ cfg' hcfg' => hcomment cfg' ?_, .inr ?_⟩
  · rw [← hcfg', deskAfter_succ h₀ he]
    exact (leaves_saveSettings _).settings.symm
  · have hhost : (deskAfter h₀ es (n + 1)).host = (deskAfter h₀ es n).saveSettings.2.host := by
      rw [deskAfter_succ h₀ he]
      rfl
    rw [← hhost] at hsaved
    exact (Host.keptComment?_of_saved (hrun.neat_at hcfg _) hsaved).trans (hcomment cfg hcfg)

/-! ### Runs -/

variable (hkey : IsSheetKey k) (hat : namesAt? h₀.disk k = some names) (hx : x ∈ names)

include hkey hat

include hx in
/-- A safe comment is kept when the window is closed. -/
theorem Orderly.kept_of_close {now : Text} (hmn : m ≤ n) (hclose : es[n]? = some (.user now .close))
    (huntouched : ∀ r, m ≤ r → r < n → Untouched h₀ es r k x) (hsafe : Safe h₀ es m k x c) :
    (deskAfter h₀ es (n + 1)).host.keptComment? k x = c := by
  have hall : ∀ j, m ≤ j → j ≤ n → Safe h₀ es j k x c := by
    intro j hmj hjn
    induction j, hmj using Nat.le_induction with
    | base => exact hsafe
    | succ j hmj ih => exact hrun.safe_succ hkey hat hx (huntouched j hmj hjn) (ih (by omega))
  have hlast : Untouched h₀ es n k x := by
    intro _ t
    rw [hclose]
    simp [commented]
  have hsafe' := hrun.safe_succ hkey hat hx hlast (hall n hmn le_rfl)
  exact hsafe'.kept_of_nothing (hrun.held_of_closes hclose trivial rfl)

omit hkey in
theorem Orderly.adrift_le (hkey : IsSheetKey k) (hmn : m ≤ n)
    (huntouched : ∀ r, m ≤ r → r < n → Untouched h₀ es r k x)
    (hquiet : ∀ r, m ≤ r → r < n → ¬Decides h₀ es r k) (hadrift : Adrift h₀ es m k x c c') :
    Adrift h₀ es n k x c c' := by
  induction n, hmn using Nat.le_induction with
  | base => exact hadrift
  | succ n hmn ih =>
    exact hrun.adrift_succ hkey (by simp [hat]) (huntouched n hmn (Nat.lt_succ_self n))
      (hquiet n hmn (Nat.lt_succ_self n))
      (ih (fun r hr hrn => huntouched r hr (Nat.lt_succ_of_lt hrn))
        fun r hr hrn => hquiet r hr (Nat.lt_succ_of_lt hrn))

include hx in
/-- A comment that is adrift is kept if the settings are saved beside its sheet in time, and lost
otherwise. -/
theorem Orderly.fate_of_adrift {now : Text} (hmn : m < n) (hclose : es[n]? = some (.user now .close))
    (huntouched : ∀ r, m < r → r < n → Untouched h₀ es r k x)
    (hadrift : Adrift h₀ es (m + 1) k x c c') :
    (SavedBetween h₀ es m n k → (deskAfter h₀ es (n + 1)).host.keptComment? k x = c') ∧
    (¬SavedBetween h₀ es m n k → (deskAfter h₀ es (n + 1)).host.keptComment? k x = c) := by
  have hadrift : ∀ {r}, m < r → r ≤ n → (∀ i, m < i → i < r → ¬Decides h₀ es i k) →
      Adrift h₀ es r k x c c' :=
    fun hmr hrn hquiet => hrun.adrift_le hat hkey hmr
      (fun i hi hir => huntouched i hi (by omega)) hquiet hadrift
  have hends : ∀ {r c}, m < r → r < n → Safe h₀ es (r + 1) k x c →
      (deskAfter h₀ es (n + 1)).host.keptComment? k x = c :=
    fun hmr hrn => hrun.kept_of_close hkey hat hx hrn hclose
      fun i hi hin => huntouched i (by omega) hin
  by_cases hdecided : ∃ r, m < r ∧ r < n ∧ Decides h₀ es r k
  · -- the first event that shows a sheet or saves beside this one decides
    classical
    obtain ⟨hmr, hrn, hdecides⟩ := Nat.find_spec hdecided
    have hfirst := fun i => Nat.find_min hdecided (m := i)
    set r := Nat.find hdecided
    have hquiet : ∀ i, m < i → i < r → ¬Decides h₀ es i k :=
      fun i hmi hir hi => hfirst i hir ⟨hmi, hir.trans hrn, hi⟩
    have hadrift := hadrift hmr hrn.le hquiet
    rcases hdecides with hshows | hsaves
    · have hlost : ¬SavedBetween h₀ es m n k := by
        rintro ⟨s, hms, hsn, hsaves, hnone⟩
        rcases lt_trichotomy s r with hsr | rfl | hrs
        · exact hquiet s hms hsr (.inr hsaves)
        · exact hshows (shown_of_saves hsaves)
        · exact hshows (hnone r hmr hrs)
      exact ⟨fun h => absurd h hlost,
        fun _ => hends hmr hrn (hrun.safe_of_adrift hkey hat hx hshows hadrift)⟩
    · have hsaved : SavedBetween h₀ es m n k :=
        ⟨r, hmr, hrn, hsaves, fun i hmi hir => by_contra fun hi => hquiet i hmi hir (.inl hi)⟩
      exact ⟨fun _ => hends hmr hrn (hrun.safe_of_saves hsaves hadrift),
        fun h => absurd hsaved h⟩
  · have hquiet : ∀ i, m < i → i < n → ¬Decides h₀ es i k :=
      fun i hmi hin hi => hdecided ⟨i, hmi, hin, hi⟩
    have hlost : ¬SavedBetween h₀ es m n k :=
      fun ⟨s, hms, hsn, hsaves, _⟩ => hquiet s hms hsn (.inr hsaves)
    -- closing decides nothing either, since no sheet is held
    have hlast : ¬Decides h₀ es n k ∧ Untouched h₀ es n k x := by
      unfold Decides SavesBeside Untouched
      rw [hclose]
      simp [commented, shown]
    exact ⟨fun h => absurd h hlost, fun _ => (hrun.adrift_succ hkey (by simp [hat]) hlast.2 hlast.1
      (hadrift hmn le_rfl hquiet)).kept⟩

omit hkey hat

/-- **What becomes of an accepted comment.** In every orderly run in which a comment on a variable is
set while a sheet is shown, and not set again until the window is closed:

* if the sheet is held when the comment is set, or the settings are saved beside it before any sheet
  is shown, the comment is kept beside the sheet in the end;
* otherwise the comment is lost, and what is kept there is what was kept when it was set. -/
theorem comment_fate {t now : Text}
    (hedit : es[m]?.bind (commented (deskAfter h₀ es m)) = some (x, t))
    (hsource : sourceAfter h₀ es m = some k) (hmn : m < n) (hclose : es[n]? = some (.user now .close))
    (hlast : ∀ r, m < r → r < n → Untouched h₀ es r k x) :
    ((deskAfter h₀ es m).window.held = .shown ∨ SavedBetween h₀ es m n k →
      (deskAfter h₀ es (n + 1)).host.keptComment? k x = some (.str t.toUtf16)) ∧
    (¬((deskAfter h₀ es m).window.held = .shown ∨ SavedBetween h₀ es m n k) →
      (deskAfter h₀ es (n + 1)).host.keptComment? k x =
        (deskAfter h₀ es m).host.keptComment? k x) := by
  obtain ⟨hkey, names, hnames, hat⟩ := (hrun.sourced m).names k hsource
  have hx : x ∈ names := by
    obtain ⟨e, -, hcommented⟩ := Option.bind_eq_some_iff.1 hedit
    obtain ⟨names', hnames', hx⟩ := mem_of_commented hcommented
    rwa [Option.some.inj (hnames.symm.trans hnames')]
  rcases hrun.safe_or_adrift hedit hsource with ⟨hheld, hsafe⟩ | ⟨hheld, hadrift⟩
  · have hkept := hrun.kept_of_close hkey hat hx hmn hclose hlast hsafe
    exact ⟨fun _ => hkept, fun hno => absurd (.inl hheld) hno⟩
  · rw [hheld]
    simpa using hrun.fate_of_adrift hkey hat hx hmn hclose hlast hadrift

end Fate

end Runs

/-! ### A sheet given up too early -/

/-- A sheet with two variables, and nothing beside it. -/
def loneSheet : Host where
  disk := { nodes := [(["a.txt".toList], .file (.text "\"x\"=1mm\n\"y\"=2mm\n".toList))] }
  directory := ⟨['/'], []⟩

/-- One variable gets a comment, the load of a file that is not there fails, and the other variable
gets a comment. -/
def lateRun : List Event :=
  [loadOf "a.txt", .user [] (.edit 0 3 (.text "long".toList) .edit), loadOf "b.txt",
    .user [] (.edit 1 3 (.text "wide".toList) .edit), .user [] .close]

/-- The sheet is the only one that is ever opened, and settings can be saved beside it. -/
theorem current_lateRun (n : ℕ) :
    (∀ k, (deskAfter loneSheet lateRun n).window.current.map Path.parts = some k →
      k = ["a.txt".toList]) ∧ (deskAfter loneSheet lateRun n).CanSave := by
  have hrun : ∀ n ≤ 5,
      (∀ k ∈ (deskAfter loneSheet lateRun n).window.current.map Path.parts, k = ["a.txt".toList]) ∧
      (deskAfter loneSheet lateRun n).CanSave := by decide +kernel
  rcases Nat.le_total n 5 with hn | hn
  · exact hrun n hn
  · rw [show deskAfter loneSheet lateRun n = deskAfter loneSheet lateRun 5 from
      stateAfter_of_length_le hn]
    exact hrun 5 le_rfl

theorem orderly_lateRun : Orderly loneSheet lateRun where
  plain := by
    intro n e he
    have hmem := List.mem_of_getElem? he
    simp only [lateRun, List.mem_cons, List.not_mem_nil, or_false] at hmem
    rcases hmem with rfl | rfl | rfl | rfl | rfl <;> simp [IsPlain, loadOf]
  sheets := by
    intro n e p sheet h he ho
    have hparts := parts_of_opened ho
    rw [← deskAfter_succ loneSheet he] at hparts
    exact ⟨['a'], by decide, by rw [(current_lateRun (n + 1)).1 _ hparts]; rfl⟩
  canSave n := (current_lateRun n).2
  legible := by
    intro n p hp
    rw [(current_lateRun n).1 p.parts (by rw [hp]; rfl)]
    exact Host.legible_of_none (by decide +kernel)
  levels := by decide

/-- The first comment is set while the sheet is held, and kept. The second one is not. -/
theorem comment_fate_late :
    (deskAfter loneSheet lateRun 5).host.keptComment? ["a.txt".toList] ['x'] =
      some (.str (Text.toUtf16 "long".toList)) ∧
    (deskAfter loneSheet lateRun 5).host.keptComment? ["a.txt".toList] ['y'] =
      (deskAfter loneSheet lateRun 3).host.keptComment? ["a.txt".toList] ['y'] := by
  have hfirst : lateRun[1]?.bind (commented (deskAfter loneSheet lateRun 1)) =
      some (['x'], "long".toList) := by decide +kernel
  have hsecond : lateRun[3]?.bind (commented (deskAfter loneSheet lateRun 3)) =
      some (['y'], "wide".toList) := by decide +kernel
  have hopen : (deskAfter loneSheet lateRun 1).window.isOpen = true := by decide +kernel
  have hclosed : (deskAfter loneSheet lateRun 3).window.isOpen = false := by decide +kernel
  have hshown : (deskAfter loneSheet lateRun 1).window.held = .shown := by
    rcases (orderly_lateRun.sourced 1).held with hheld | ⟨hheld, -⟩
    · simp [Window.isOpen, hheld] at hopen
    · exact hheld
  constructor
  · have hlast : ∀ r, 1 < r → r < 4 → Untouched loneSheet lateRun r ["a.txt".toList] ['x'] := by
      intro r hr hr' _ t
      obtain rfl | rfl : r = 2 ∨ r = 3 := by omega
      · simp [lateRun, loadOf, commented]
      · rw [hsecond]
        simp
    exact (comment_fate orderly_lateRun hfirst (by decide +kernel) (by decide) rfl hlast).1
      (.inl hshown)
  · refine (comment_fate orderly_lateRun hsecond (by decide +kernel) (by decide) rfl
      (fun r hr hr' => by omega)).2 ?_
    rintro (hheld | ⟨s, hs, hs', -⟩)
    · simp [Window.isOpen, hheld] at hclosed
    · omega

/-- **The second comment is accepted and lost**, though nothing went wrong beside the sheet. -/
theorem accepted_comment_lost : Orderly loneSheet lateRun ∧
    lateRun[3]? = some (.user [] (.edit 1 3 (.text "wide".toList) .edit)) ∧
    ((deskAfter loneSheet lateRun 3).act [] (.edit 1 3 (.text "wide".toList) .edit)).1 =
      .ok (some true) ∧
    sourceAfter loneSheet lateRun 3 = some ["a.txt".toList] ∧
    lateRun[4]? = some (.user [] .close) ∧
    (deskAfter loneSheet lateRun 5).host.keptComment? ["a.txt".toList] ['y'] = none := by
  refine ⟨orderly_lateRun, rfl, by decide +kernel, ?_, rfl, ?_⟩
  · decide +kernel
  · rw [← Option.isNone_iff_eq_none]
    decide +kernel

end EquationSheet.Provenance
