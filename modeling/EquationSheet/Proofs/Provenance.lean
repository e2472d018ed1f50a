import EquationSheet.Proofs.Moves
import EquationSheet.Proofs.Traces

/-!
# Where saved settings come from

A run of a desktop alternates what the user does with what happens to the disk in between. The
settings that a table shows come from the file beside one sheet, and they are saved beside the sheet
that was opened last. The two are the same sheet unless a load strands: it opens a sheet that cannot
be shown while another one is.

* `sourceAfter`: the sheet whose settings are shown.
* `Derived`: settings read from beside a sheet and reconciled with its names, with comments edited
  since.
* `Strands`: a load keeps the path of a sheet without its settings.
* `settings_provenance`: **settings are saved beside the sheet that they come from** as long as no
  load strands, and a stranding load breaks this.
-/

namespace EquationSheet.Provenance

open Desktop

/-- The user does something, at a given time, or the disk is changed from outside. -/
inductive Event
  | user (now : Text) (action : UserAction)
  | outside (host : Host)

def step (d : Desktop) : Event → Desktop
  | .user now action => (d.act now action).2
  | .outside host => { d with host := host }

/-- The sheet that an event opens. -/
def opened (d : Desktop) : Event → Option (Path × SheetFile × Host)
  | .user _ (.load q) => d.opening q
  | _ => none

/-- The sheet that an event shows, with its settings: those kept beside it, reconciled with its
names. -/
def shown (d : Desktop) : Event → Option (Key × Members)
  | .user now (.load q) => (d.opening q).bind fun (p, sheet, h) =>
      (settingsFor p sheet now h).map (p.parts, ·)
  | _ => none

section Trace

variable (h₀ : Host) (es : List Event)

/-- The desktop after the first `n` events, from a new window. -/
def deskAfter (n : ℕ) : Desktop := stateAfter step { host := h₀ } es n

/-- The sheet whose settings are shown: the one shown last. -/
def sourceAfter : ℕ → Option Key
  | 0 => none
  | n + 1 =>
    match es[n]?.bind (shown (deskAfter h₀ es n)) with
    | some (k, _) => some k
    | none => sourceAfter n

/-- The settings were read from beside a sheet when it was shown, and reconciled with its names;
since then only comments were edited. -/
def Derived (n : ℕ) (k : Key) (cfg : Members) : Prop :=
  ∃ m < n, ∃ cfg₀, es[m]?.bind (shown (deskAfter h₀ es m)) = some (k, cfg₀) ∧
    Relation.ReflTransGen EditsComment cfg₀ cfg

/-- The event opens a sheet but does not show it, while the settings of another one are shown. -/
def Strands (n : ℕ) : Prop :=
  ∃ p sheet h, es[n]?.bind (opened (deskAfter h₀ es n)) = some (p, sheet, h) ∧
    es[n]?.bind (shown (deskAfter h₀ es n)) = none ∧
    (deskAfter h₀ es n).settings?.isSome = true ∧ sourceAfter h₀ es n ≠ some p.parts

/-- What would be saved is saved beside the sheet that it comes from. -/
def Right (n : ℕ) : Prop :=
  ∀ p cfg, (deskAfter h₀ es n).pending = some (p, cfg) → sourceAfter h₀ es n = some p.parts

variable {es}

theorem deskAfter_succ {n : ℕ} {e : Event} (h : es[n]? = some e) :
    deskAfter h₀ es (n + 1) = step (deskAfter h₀ es n) e := stateAfter_succ h

theorem deskAfter_succ_none {n : ℕ} (h : es[n]? = none) :
    deskAfter h₀ es (n + 1) = deskAfter h₀ es n := stateAfter_succ_none h

theorem sourceAfter_of_shown {n : ℕ} {k : Key} {cfg : Members}
    (h : es[n]?.bind (shown (deskAfter h₀ es n)) = some (k, cfg)) :
    sourceAfter h₀ es (n + 1) = some k := by
  simp only [sourceAfter, h]

theorem sourceAfter_of_none {n : ℕ} (h : es[n]?.bind (shown (deskAfter h₀ es n)) = none) :
    sourceAfter h₀ es (n + 1) = sourceAfter h₀ es n := by
  simp only [sourceAfter, h]

end Trace

/-! ### One event -/

variable {d : Desktop} {p : Path} {sheet : SheetFile} {h : Host} {k : Key} {cfg : Members}
  {e : Event}

/-- The settings are those shown before, up to an edit of a comment. -/
def Follows (d d' : Desktop) : Prop :=
  d'.settings? = d.settings? ∨
    ∃ cfg cfg', d.settings? = some cfg ∧ d'.settings? = some cfg' ∧ EditsComment cfg cfg'

theorem follows_edit (d : Desktop) (row column : ℤ) (v : Scalar) (role : CellRole) :
    Follows d (d.edit row column v role).2 := by
  unfold Desktop.edit
  cases ht : d.window.table with
  | none => exact .inl rfl
  | some t =>
    have hd : d.settings? = some t.settings := by simp [settings?, ht]
    rcases (set_frame t row column v role d.host).1 with hsame | hedit
    · left
      rw [hd, ← hsame]
      rfl
    · exact .inr ⟨_, _, hd, rfl, hedit⟩

/-- **An event that opens nothing** keeps the path, and the settings up to an edit. -/
theorem step_of_unopened (he : opened d e = none) :
    (step d e).window.current = d.window.current ∧ Follows d (step d e) ∧
      ((step d e).file? = d.file? ∨ (step d e).file? = none) := by
  have hleaves : ∀ {d'}, Leaves d d' → d'.window.current = d.window.current ∧ Follows d d' ∧
      (d'.file? = d.file? ∨ d'.file? = none) := fun h => ⟨h.current, .inl h.settings, h.file⟩
  cases e with
  | outside host => exact ⟨rfl, .inl rfl, .inl rfl⟩
  | user now action =>
    cases action with
    | load q => exact hleaves (load_of_opening_none he now).1
    | filter t => exact hleaves (leaves_setFilter d t)
    | edit row column v role =>
      exact ⟨(window_edit d row column v role).1, follows_edit d row column v role,
        .inl (file?_edit d row column v role)⟩
    | save => exact hleaves (leaves_saveSettings d)
    | close => exact hleaves (leaves_closeCurrent d)

theorem exists_load_of_opened (he : opened d e = some (p, sheet, h)) :
    ∃ now q, e = .user now (.load q) ∧ d.opening q = some (p, sheet, h) := by
  cases e with
  | outside host => simp [opened] at he
  | user now action =>
    cases action with
    | load q => exact ⟨now, q, rfl, he⟩
    | _ => simp [opened] at he

theorem shown_load {q : Path} (ho : d.opening q = some (p, sheet, h)) (now : Text) :
    shown d (.user now (.load q)) = (settingsFor p sheet now h).map (p.parts, ·) := by
  simp only [shown, ho, Option.bind_some]

theorem opened_of_shown (he : shown d e = some (k, cfg)) :
    ∃ p sheet h, opened d e = some (p, sheet, h) ∧ k = p.parts := by
  cases e with
  | outside host => simp [shown] at he
  | user now action =>
    cases action with
    | load q =>
      simp only [shown, Option.bind_eq_some_iff, Option.map_eq_some_iff] at he
      obtain ⟨⟨p, sheet, h⟩, ho, cfg', -, heq⟩ := he
      exact ⟨p, sheet, h, ho, (Prod.mk.inj heq).1.symm⟩
    | _ => simp [shown] at he

/-- The desktop that holds an opened sheet still shows what was shown before. -/
theorem hold_settings (d : Desktop) (p : Path) (sheet : SheetFile) (h : Host) :
    (d.closeCurrent.2.hold p sheet h).settings? = d.settings? ∧
      ((d.closeCurrent.2.hold p sheet h).file? = d.file? ∨
        (d.closeCurrent.2.hold p sheet h).file? = none) :=
  ⟨(leaves_closeCurrent d).settings, (leaves_closeCurrent d).file⟩

theorem hold_plain (hdots : ['.', '.'] ∉ p.parts) : (d.hold p sheet h).Plain := by
  intro p' hp'
  obtain rfl : p = p' := Option.some.inj hp'
  exact hdots

/-- **A sheet that is opened but not shown** leaves its path with the settings of before. -/
theorem step_of_unshown (ho : opened d e = some (p, sheet, h)) (hs : shown d e = none) :
    (step d e).window.current = some p ∧ ['.', '.'] ∉ p.parts ∧
      (step d e).settings? = d.settings? ∧
      ((step d e).file? = d.file? ∨ (step d e).file? = none) := by
  obtain ⟨now, q, rfl, ho⟩ := exists_load_of_opened ho
  obtain ⟨hload, hdots, -, hdue, -⟩ := load_of_opening ho now
  obtain ⟨hsettings, hfile⟩ := hold_settings d p sheet h
  have hnone : settingsFor p sheet now h = none := by
    rw [shown_load ho] at hs
    simpa using hs
  have hplain : (d.closeCurrent.2.hold p sheet h).Plain := hold_plain hdots
  obtain ⟨hleaves, -⟩ := showing_of_none hnone hplain hdue
  simp only [step, act, hload]
  refine ⟨hleaves.current, hdots, hleaves.settings.trans hsettings, ?_⟩
  rcases hleaves.file with hf | hf
  · rw [hf]
    exact hfile
  · exact .inr hf

/-- **A sheet that is shown** brings its own settings along. -/
theorem step_of_shown (he : shown d e = some (k, cfg)) :
    ∃ p, (step d e).window.current = some p ∧ p.parts = k ∧ ['.', '.'] ∉ p.parts ∧
      (step d e).settings? = some cfg ∧ ∀ f, (step d e).file? = some f → f.key = k := by
  obtain ⟨p, sheet, h, ho, rfl⟩ := opened_of_shown he
  obtain ⟨now, q, rfl, ho⟩ := exists_load_of_opened ho
  obtain ⟨hload, hdots, hkey, -⟩ := load_of_opening ho now
  have hsome : settingsFor p sheet now h = some cfg := by
    rw [shown_load ho] at he
    simpa using he
  have hheld : settingsFor p sheet now (d.closeCurrent.2.hold p sheet h).host = some cfg := hsome
  obtain ⟨-, ⟨t, ht, hcfg, hsource, -, -⟩, hcurrent, -⟩ := showing_of_settings hheld
  simp only [step, act, hload]
  refine ⟨p, hcurrent, rfl, hdots, by rw [settings?, ht, ← hcfg]; rfl, fun f hf => hkey f ?_⟩
  rw [file?, ht, Option.bind_some, hsource] at hf
  exact hf

/-- The text under a key is what is written of the settings shown before the event, saved beside the
sheet opened last or beside one that the event opens but does not show. -/
def SavedBy (d : Desktop) (e : Event) (k : Key) (content : Option Content) : Prop :=
  ∃ p cfg, d.settings? = some cfg ∧ k = sidecarKey p.parts ∧
    content = some (.text (Settings.written d.host.conditions (.obj cfg)).2) ∧
    (d.window.current = some p ∨
      ∃ sheet h, opened d e = some (p, sheet, h) ∧ shown d e = none)

theorem savedBy_of_saves {content : Option Content} (e : Event) (h : d.Saves k content) :
    SavedBy d e k content := by
  obtain ⟨p, cfg, hpending, hk, htext⟩ := h
  obtain ⟨hcurrent, hcfg⟩ := pending_eq_some.1 hpending
  exact ⟨p, cfg, hcfg, hk, htext, .inl hcurrent⟩

/-- The event gives up the sheet that is held. -/
def Closes : Event → Prop
  | .user _ (.load _) | .user _ .close => True
  | _ => False

/-- A load that opens a sheet changes what closing changed, and no other file but the settings beside
the sheet: they get those of the table, if the sheet cannot be shown. -/
theorem content?_of_opening {q p : Path} {sheet : SheetFile} {h : Host} {now : Text}
    (ho : d.opening q = some (p, sheet, h)) (k : Key) :
    (step d (.user now (.load q))).host.disk.content? k =
        d.closeCurrent.2.host.disk.content? k ∨
      shown d (.user now (.load q)) = none ∧ k = sidecarKey p.parts ∧
        ∃ cfg, d.settings? = some cfg ∧ (step d (.user now (.load q))).host.disk.content? k =
          some (.text (Settings.written d.host.conditions (.obj cfg)).2) := by
  obtain ⟨hload, hdots, -, hdue, hcontent⟩ := load_of_opening ho now
  have hhost : (d.closeCurrent.2.hold p sheet h).host.disk.content? k =
      d.closeCurrent.2.host.disk.content? k := hcontent k
  simp only [step, act, hload]
  cases hs : settingsFor p sheet now (d.closeCurrent.2.hold p sheet h).host with
  | some cfg =>
    obtain ⟨-, -, -, hdisk⟩ := showing_of_settings hs
    exact .inl (by rw [hdisk, hhost])
  | none =>
    obtain ⟨-, hwrites⟩ := showing_of_none hs (hold_plain hdots) hdue
    rcases hwrites k with hsame | ⟨p', cfg, hpending, hk, htext⟩
    · exact .inl (hsame.trans hhost)
    · -- the sheet could not be read, and is closed with the settings of the table
      obtain ⟨hp', hcfg⟩ := pending_eq_some.1 hpending
      obtain rfl : p = p' := Option.some.inj hp'
      rw [(hold_settings d p sheet h).1] at hcfg
      have hconditions : (d.closeCurrent.2.hold p sheet h).host.conditions = d.host.conditions :=
        conditions_of_opening ho
      rw [hconditions] at htext
      refine .inr ⟨?_, hk, cfg, hcfg, htext⟩
      rw [shown_load ho]
      exact congrArg (Option.map _) hs

/-- **Which files an event of the user changes**: the sheet under the table, the settings beside the
sheet opened last, those beside a sheet that is opened but not shown, and a sheet that is given up
with something left to write. The settings that are written are those of the table. -/
theorem content?_step {now : Text} {action : UserAction} (hd : d.Plain)
    (hfile : ∀ row column v role, action = .edit row column v role →
      ∀ f, d.file? = some f → k ≠ f.key) :
    (step d (.user now action)).host.disk.content? k = d.host.disk.content? k ∨
      SavedBy d (.user now action) k ((step d (.user now action)).host.disk.content? k) ∨
      Closes (.user now action) ∧
        ∃ before, (before = d.host.disk.content? k ∨ SavedBy d (.user now action) k before) ∧
          d.Settles k before ((step d (.user now action)).host.disk.content? k) := by
  have hsave : ∀ {content}, content = d.host.disk.content? k ∨ d.Saves k content →
      content = d.host.disk.content? k ∨ SavedBy d (.user now action) k content :=
    Or.imp_right (savedBy_of_saves _)
  have hclose : d.closeCurrent.2.host.disk.content? k = d.host.disk.content? k ∨
      SavedBy d (.user now action) k (d.closeCurrent.2.host.disk.content? k) ∨
      ∃ before, (before = d.host.disk.content? k ∨ SavedBy d (.user now action) k before) ∧
        d.Settles k before (d.closeCurrent.2.host.disk.content? k) := by
    rcases content?_closeCurrent hd k with hsame | hsaves | hsettles
    · exact .inl hsame
    · exact .inr (.inl (savedBy_of_saves _ hsaves))
    · exact .inr (.inr ⟨_, hsave (content?_saveSettings hd k), hsettles⟩)
  cases action with
  | filter t =>
    left
    simp only [step, act, host_setFilter]
  | edit row column v role =>
    exact .inl ((writes_edit d row column v role).content? (hfile row column v role rfl))
  | save => exact (hsave (content?_saveSettings hd k)).imp_right .inl
  | close => exact hclose.imp_right (Or.imp_right fun hsettles => ⟨trivial, hsettles⟩)
  | load q =>
    replace hclose := hclose.imp_right (Or.imp_right fun hsettles =>
      show Closes (.user now (.load q)) ∧ _ from ⟨trivial, hsettles⟩)
    cases ho : d.opening q with
    | none =>
      simp only [step, act, (load_of_opening_none ho now).2 k]
      exact hclose
    | some found =>
      obtain ⟨p, sheet, h⟩ := found
      rcases @content?_of_opening d q p sheet h now ho k with hsame | ⟨hs, hk, cfg, hcfg, htext⟩
      · rw [hsame]
        exact hclose
      · exact .inr (.inl ⟨p, cfg, hcfg, hk, htext, .inr ⟨sheet, h, ho, hs⟩⟩)

/-- An event that shows nothing leaves the settings, up to an edit. -/
theorem follows_of_unshown (hs : shown d e = none) : Follows d (step d e) := by
  cases ho : opened d e with
  | none => exact (step_of_unopened ho).2.1
  | some found =>
    obtain ⟨p, sheet, h⟩ := found
    exact .inl (step_of_unshown ho hs).2.2.1

/-! ### Runs -/

/-- The sheets in use are text files with a name, and settings are shown only after one was
opened. -/
structure Ok (d : Desktop) : Prop where
  sound : d.Sound
  file : ∀ f, d.file? = some f → IsSheetKey f.key
  current : d.settings?.isSome = true → d.window.current.isSome = true

theorem step_ok (hd : Ok d)
    (hopen : ∀ p sheet h, opened d e = some (p, sheet, h) → IsSheetKey p.parts) :
    Ok (step d e) := by
  have hfile : ∀ {d' : Desktop}, (d'.file? = d.file? ∨ d'.file? = none) →
      ∀ f, d'.file? = some f → IsSheetKey f.key := by
    rintro d' (hsame | hnone) f hf
    · exact hd.file f (hsame ▸ hf)
    · rw [hnone] at hf
      exact absurd hf (by simp)
  have hsettings : Follows d (step d e) → (step d e).settings?.isSome = d.settings?.isSome := by
    rintro (hsame | ⟨cfg, cfg', hcfg, hcfg', -⟩)
    · rw [hsame]
    · rw [hcfg, hcfg']
      rfl
  cases ho : opened d e with
  | none =>
    obtain ⟨hcurrent, hfollows, hf⟩ := step_of_unopened ho
    refine ⟨fun p hp => hd.sound p (hcurrent ▸ hp), hfile hf, fun hsome => ?_⟩
    rw [hsettings hfollows] at hsome
    rw [hcurrent]
    exact hd.current hsome
  | some found =>
    obtain ⟨p, sheet, h⟩ := found
    have hp := hopen p sheet h ho
    cases hs : shown d e with
    | none =>
      obtain ⟨hcurrent, hdots, -, hf⟩ := step_of_unshown ho hs
      refine ⟨fun p' hp' => ?_, hfile hf, fun _ => by rw [hcurrent]; rfl⟩
      obtain rfl : p = p' := Option.some.inj (hcurrent.symm.trans hp')
      exact ⟨hp, hdots⟩
    | some brought =>
      obtain ⟨k, cfg⟩ := brought
      obtain ⟨p', hcurrent, hk, hdots, -, hf⟩ := step_of_shown hs
      obtain ⟨p'', sheet', h', ho', hk'⟩ := opened_of_shown hs
      have hsheet : IsSheetKey k := hk' ▸ hopen p'' sheet' h' ho'
      refine ⟨fun q hq => ?_, fun f hf' => by rw [hf f hf']; exact hsheet,
        fun _ => by rw [hcurrent]; rfl⟩
      obtain rfl : p' = q := Option.some.inj (hcurrent.symm.trans hq)
      exact ⟨hk ▸ hsheet, hdots⟩

theorem settings_of_follows {d' : Desktop} (h : Follows d d') (hcfg : d'.settings? = some cfg) :
    ∃ cfg', d.settings? = some cfg' := by
  rcases h with hsame | ⟨cfg₁, _, hcfg₁, -, -⟩
  · exact ⟨cfg, hsame ▸ hcfg⟩
  · exact ⟨cfg₁, hcfg₁⟩

variable (h₀ : Host) (es : List Event)

/-- Every sheet that is opened in the run is a text file with a name. -/
def OpensSheets : Prop :=
  ∀ n e p sheet h, es[n]? = some e → opened (deskAfter h₀ es n) e = some (p, sheet, h) →
    IsSheetKey p.parts

variable {h₀ es}

theorem Derived.mono {m n : ℕ} (h : Derived h₀ es m k cfg) (hmn : m ≤ n) : Derived h₀ es n k cfg := by
  obtain ⟨l, hl, hread⟩ := h
  exact ⟨l, Nat.lt_of_lt_of_le hl hmn, hread⟩

/-- What every action preserves on every host holds in a whole run. -/
theorem deskAfter_preserves {P : Desktop → Prop} (hfirst : P { host := h₀ })
    (hact : ∀ d now action, P d → P (Desktop.act d now action).2)
    (hhost : ∀ (d : Desktop) h, P d → P { d with host := h }) (n : ℕ) : P (deskAfter h₀ es n) := by
  refine stateAfter_induction hfirst (fun n e _ hd => ?_) n
  cases e with
  | user now action => exact hact _ now action hd
  | outside host => exact hhost _ host hd

theorem deskAfter_placed (n : ℕ) : (deskAfter h₀ es n).Placed :=
  deskAfter_preserves (placed_first h₀) (fun _ now action hd => placed_act hd now action)
    (fun _ _ hd => ⟨hd.plain, hd.held, hd.closed⟩) n

variable (hsheets : OpensSheets h₀ es)

include hsheets

theorem deskAfter_ok (n : ℕ) : Ok (deskAfter h₀ es n) := by
  have hfirst : Ok { host := h₀ } := by
    refine ⟨fun p hp => ?_, fun f hf => ?_, fun hsome => ?_⟩
    · simp at hp
    · simp [file?] at hf
    · simp [settings?] at hsome
  exact stateAfter_induction (P := Ok) hfirst
    (fun n e he hd => step_ok hd fun p sheet h => hsheets n e p sheet h he) n

omit hsheets in
/-- **The settings shown come from the sheet shown last.** -/
theorem derived_of_settings (n : ℕ) (hcfg : (deskAfter h₀ es n).settings? = some cfg) :
    ∃ k, sourceAfter h₀ es n = some k ∧ Derived h₀ es n k cfg := by
  induction n generalizing cfg with
  | zero => simp [deskAfter, stateAfter_zero, settings?] at hcfg
  | succ n ih =>
    cases he : es[n]? with
    | none =>
      rw [deskAfter_succ_none h₀ he] at hcfg
      obtain ⟨k, hk, hderived⟩ := ih hcfg
      refine ⟨k, ?_, hderived.mono (Nat.le_succ n)⟩
      rw [sourceAfter_of_none h₀ (by rw [he]; rfl), hk]
    | some e =>
      rw [deskAfter_succ h₀ he] at hcfg
      cases hs : shown (deskAfter h₀ es n) e with
      | some brought =>
        -- the event shows a sheet, with the settings read just now
        obtain ⟨k, cfg₀⟩ := brought
        have hbind : es[n]?.bind (shown (deskAfter h₀ es n)) = some (k, cfg₀) := by rw [he]; exact hs
        obtain ⟨p, -, -, -, hcfg₀, -⟩ := step_of_shown hs
        obtain rfl : cfg₀ = cfg := Option.some.inj (hcfg₀.symm.trans hcfg)
        exact ⟨k, sourceAfter_of_shown h₀ hbind, n, Nat.lt_succ_self n, cfg₀, hbind, .refl⟩
      | none =>
        -- the settings are those of before, or one comment away from them
        have hbind : es[n]?.bind (shown (deskAfter h₀ es n)) = none := by rw [he]; exact hs
        rw [sourceAfter_of_none h₀ hbind]
        rcases follows_of_unshown hs with
          hsame | ⟨cfg₁, cfg₂, hcfg₁, hcfg₂, hedit⟩
        · rw [hsame] at hcfg
          obtain ⟨k, hk, hderived⟩ := ih hcfg
          exact ⟨k, hk, hderived.mono (Nat.le_succ n)⟩
        · obtain rfl : cfg₂ = cfg := Option.some.inj (hcfg₂.symm.trans hcfg)
          obtain ⟨k, hk, m, hm, cfg₀, hread, hedits⟩ := ih hcfg₁
          exact ⟨k, hk, m, Nat.lt_succ_of_lt hm, cfg₀, hread, hedits.tail hedit⟩

/-! ### Stranding loads -/

omit hsheets in
/-- Without a stranding load, what would be saved stays in its place. -/
theorem right_succ {n : ℕ} (hright : Right h₀ es n) (hstrands : ¬Strands h₀ es n) :
    Right h₀ es (n + 1) := by
  intro p cfg hpending
  cases he : es[n]? with
  | none =>
    rw [deskAfter_succ_none h₀ he] at hpending
    rw [sourceAfter_of_none h₀ (by rw [he]; rfl)]
    exact hright p cfg hpending
  | some e =>
    rw [deskAfter_succ h₀ he] at hpending
    obtain ⟨hcurrent, hcfg⟩ := pending_eq_some.1 hpending
    cases hs : shown (deskAfter h₀ es n) e with
    | some brought =>
      obtain ⟨k, cfg₀⟩ := brought
      obtain ⟨p', hcurrent', hk, -⟩ := step_of_shown hs
      obtain rfl : p' = p := Option.some.inj (hcurrent'.symm.trans hcurrent)
      rw [sourceAfter_of_shown h₀ (by rw [he]; exact hs), hk]
    | none =>
      have hbind : es[n]?.bind (shown (deskAfter h₀ es n)) = none := by rw [he]; exact hs
      rw [sourceAfter_of_none h₀ hbind]
      have hfollows := follows_of_unshown hs
      obtain ⟨cfg', hcfg'⟩ := settings_of_follows hfollows hcfg
      cases ho : opened (deskAfter h₀ es n) e with
      | none =>
        rw [(step_of_unopened ho).1] at hcurrent
        exact hright p cfg' (pending_eq_some.2 ⟨hcurrent, hcfg'⟩)
      | some found =>
        obtain ⟨p', sheet, h⟩ := found
        obtain rfl : p' = p := Option.some.inj ((step_of_unshown ho hs).1.symm.trans hcurrent)
        -- the path is new and the settings are not, so the load strands unless it is their sheet
        by_contra hne
        exact hstrands ⟨p', sheet, h, by rw [he]; exact ho, hbind, by rw [hcfg']; rfl, hne⟩

omit hsheets in
/-- A stranding load leaves the settings of one sheet with the path of another. -/
theorem not_right_of_strands {n : ℕ} (hstrands : Strands h₀ es n) : ¬Right h₀ es (n + 1) := by
  obtain ⟨p, sheet, h, ho, hs, hsome, hne⟩ := hstrands
  intro hright
  rw [← sourceAfter_of_none h₀ hs] at hne
  cases he : es[n]? with
  | none => rw [he] at ho; simp at ho
  | some e =>
    rw [he] at ho hs
    obtain ⟨hcurrent, -, hsettings, -⟩ := step_of_unshown ho hs
    obtain ⟨cfg, hcfg⟩ := Option.isSome_iff_exists.1 hsome
    rw [← deskAfter_succ h₀ he] at hcurrent hsettings
    exact hne (hright p cfg (pending_eq_some.2 ⟨hcurrent, hsettings.trans hcfg⟩))

omit hsheets in
/-- **What would be saved is in its place as long as no load strands**, and no longer. -/
theorem right_iff (n : ℕ) : (∀ m ≤ n, Right h₀ es m) ↔ ∀ m < n, ¬Strands h₀ es m := by
  constructor
  · intro hright m hm hstrands
    exact not_right_of_strands hstrands (hright (m + 1) hm)
  · intro hstrands m hm
    induction m with
    | zero =>
      intro p cfg hpending
      simp [deskAfter, stateAfter_zero, pending, settings?] at hpending
    | succ m ih =>
      exact right_succ (ih (Nat.le_of_succ_le hm)) (hstrands m hm)

/-- What is left to write is left to a sheet. -/
theorem isSheetKey_of_due {n : ℕ} {f : OpenFile} {t : Text}
    (hdue : (deskAfter h₀ es n).due = some (f, t)) : IsSheetKey f.key := by
  obtain ⟨l, hl, hleft⟩ := Option.bind_eq_some_iff.1 hdue
  obtain ⟨-, -, hf, -⟩ := FileLock.due_eq_some.1 hleft
  obtain ⟨p, hp, hkey⟩ := (deskAfter_placed n).held l f hl hf
  rw [hkey]
  exact ((deskAfter_ok hsheets n).sound p hp).1

/-- Where the settings beside a sheet change, they become what is written of the settings shown. The
sheet is the one opened last, or one that is opened now but not shown. -/
theorem saved_of_changed {n : ℕ} {now : Text} {action : UserAction}
    (he : es[n]? = some (.user now action)) (hk : IsSheetKey k)
    (hchanged : (deskAfter h₀ es (n + 1)).host.disk.content? (sidecarKey k) ≠
      (deskAfter h₀ es n).host.disk.content? (sidecarKey k)) :
    ∃ cfg, (deskAfter h₀ es n).settings? = some cfg ∧
      (deskAfter h₀ es (n + 1)).host.disk.content? (sidecarKey k) =
        some (.text (Settings.written (deskAfter h₀ es n).host.conditions (.obj cfg)).2) ∧
      ((∃ p, (deskAfter h₀ es n).window.current = some p ∧ p.parts = k) ∨
        ∃ p sheet h, es[n]?.bind (opened (deskAfter h₀ es n)) = some (p, sheet, h) ∧
          es[n]?.bind (shown (deskAfter h₀ es n)) = none ∧ p.parts = k) := by
  have hok := deskAfter_ok hsheets n
  have hopen := fun p sheet h => hsheets n (.user now action) p sheet h he
  rw [deskAfter_succ h₀ he] at hchanged ⊢
  have hfile : ∀ f, (deskAfter h₀ es n).file? = some f → sidecarKey k ≠ f.key :=
    fun f hf => sidecarKey_ne (hok.file f hf)
  rcases content?_step hok.sound.plain fun _ _ _ _ _ => hfile with
    hsame | ⟨p, cfg, hcfg, hkey, htext, hwhere⟩ | ⟨-, -, -, f, t, _, hdue, hkey, -⟩
  · exact absurd hsame hchanged
  · refine ⟨cfg, hcfg, htext, ?_⟩
    rcases hwhere with hcurrent | ⟨sheet, h, ho, hs⟩
    · exact .inl ⟨p, hcurrent, (sidecarKey_injective hk (hok.sound p hcurrent).1 hkey).symm⟩
    · refine .inr ⟨p, sheet, h, by rw [he]; exact ho, by rw [he]; exact hs, ?_⟩
      exact (sidecarKey_injective hk (hopen p sheet h ho) hkey).symm
  · exact absurd hkey (sidecarKey_ne (isSheetKey_of_due hsheets hdue))

/-- Without a stranding load, the settings beside a sheet change only for those of the sheet, and
only if it was the sheet opened last. -/
theorem source_of_changed {n : ℕ} {now : Text} {action : UserAction}
    (he : es[n]? = some (.user now action)) (hk : IsSheetKey k)
    (hchanged : (deskAfter h₀ es (n + 1)).host.disk.content? (sidecarKey k) ≠
      (deskAfter h₀ es n).host.disk.content? (sidecarKey k))
    (hstrands : ∀ m ≤ n, ¬Strands h₀ es m) :
    sourceAfter h₀ es n = some k ∧
      ∃ p, (deskAfter h₀ es n).window.current = some p ∧ p.parts = k := by
  have hright : Right h₀ es n :=
    (right_iff n).2 (fun m hm => hstrands m hm.le) n le_rfl
  obtain ⟨cfg, hcfg, -, hwhere⟩ := saved_of_changed hsheets he hk hchanged
  rcases hwhere with ⟨p, hcurrent, hp⟩ | ⟨p, sheet, h, ho, hs, hp⟩
  · have hsource := hright p cfg (pending_eq_some.2 ⟨hcurrent, hcfg⟩)
    exact ⟨hp ▸ hsource, p, hcurrent, hp⟩
  · -- a sheet that is not shown can only be the one whose settings are shown
    have hsource : sourceAfter h₀ es n = some p.parts := by
      by_contra hne
      exact hstrands n le_rfl ⟨p, sheet, h, ho, hs, by rw [hcfg]; rfl, hne⟩
    obtain ⟨p', hcurrent⟩ := Option.isSome_iff_exists.1
      ((deskAfter_ok hsheets n).current (by rw [hcfg]; rfl))
    have hsource' := hright p' cfg (pending_eq_some.2 ⟨hcurrent, hcfg⟩)
    refine ⟨hp ▸ hsource, p', hcurrent, ?_⟩
    rw [← hp]
    exact Option.some.inj (hsource'.symm.trans hsource)

/-- **Settings are saved beside the sheet that they come from as long as no load strands.** In every
run over text files, with any changes of the disk in between:

* what would be saved is in its place up to a moment exactly when no load has stranded before it;
* the settings shown were read from beside one sheet and reconciled with its names, and since then
  only comments were edited;
* where something the user does changes the settings beside a sheet, they become the settings shown,
  or the front of their text if saving it went wrong, and these come from that very sheet if no load
  has stranded, this one included;
* without a stranding load, nothing that the user does, such as a load that ends with a message,
  changes the settings beside a sheet that is not the one opened last. -/
theorem settings_provenance (n : ℕ) :
    ((∀ m ≤ n, Right h₀ es m) ↔ ∀ m < n, ¬Strands h₀ es m) ∧
    (∀ cfg, (deskAfter h₀ es n).settings? = some cfg →
      ∃ k, sourceAfter h₀ es n = some k ∧ Derived h₀ es n k cfg) ∧
    (∀ now action k, es[n]? = some (.user now action) → IsSheetKey k →
      (deskAfter h₀ es (n + 1)).host.disk.content? (sidecarKey k) ≠
        (deskAfter h₀ es n).host.disk.content? (sidecarKey k) →
      ∃ k' cfg t, (deskAfter h₀ es n).settings? = some cfg ∧ sourceAfter h₀ es n = some k' ∧
        Derived h₀ es n k' cfg ∧
        (deskAfter h₀ es (n + 1)).host.disk.content? (sidecarKey k) = some (.text t) ∧
        t <+: (Json.obj cfg).indented ∧
        ((Settings.written (deskAfter h₀ es n).host.conditions (.obj cfg)).1 = .ok () →
          t = (Json.obj cfg).indented) ∧
        ((∀ m ≤ n, ¬Strands h₀ es m) → k' = k)) ∧
    ((∀ m ≤ n, ¬Strands h₀ es m) → ∀ now action k, es[n]? = some (.user now action) →
      IsSheetKey k → (∀ p, (deskAfter h₀ es n).window.current = some p → p.parts ≠ k) →
      (deskAfter h₀ es (n + 1)).host.disk.content? (sidecarKey k) =
        (deskAfter h₀ es n).host.disk.content? (sidecarKey k)) := by
  refine ⟨right_iff n, fun cfg => derived_of_settings n, ?_, ?_⟩
  · intro now action k he hk hchanged
    obtain ⟨cfg, hcfg, htext, -⟩ := saved_of_changed hsheets he hk hchanged
    obtain ⟨k', hk', hderived⟩ := derived_of_settings n hcfg
    obtain ⟨hfront, hwhole⟩ := Settings.written_isPrefix (deskAfter h₀ es n).host.conditions (.obj cfg)
    refine ⟨k', cfg, _, hcfg, hk', hderived, htext, hfront, hwhole, fun hstrands => ?_⟩
    have hsource := (source_of_changed hsheets he hk hchanged hstrands).1
    exact Option.some.inj (hk'.symm.trans hsource)
  · intro hstrands now action k he hk hother
    by_contra hchanged
    obtain ⟨-, p, hcurrent, hp⟩ := source_of_changed hsheets he hk hchanged hstrands
    exact hother p hcurrent hp

/-! ### Three sheets -/

omit hsheets

/-- Two sheets that can be read, one that cannot, and settings beside each. -/
def threeSheets : Host where
  disk := { nodes := [
    (["a.txt".toList], .file (.text "\"x\"=1mm\n".toList)),
    (["b.txt".toList], .file (.text "\"y\"=2mm\n".toList)),
    (["c.txt".toList], .file (.text "\"z\"=3mm\nno equation\n".toList)),
    (["a.cfg".toList], .file (.text "\x7b\"comments\": \x7b\"x\": \"width\"\x7d\x7d".toList)),
    (["b.cfg".toList], .file (.text "\x7b\"comments\": \x7b\"y\": \"depth\"\x7d\x7d".toList)),
    (["c.cfg".toList], .file (.text "\x7b\"comments\": \x7b\"z\": \"height\"\x7d\x7d".toList))] }
  directory := ⟨['/'], []⟩

/-- The load of a sheet in the directory of the host. -/
def loadOf (name : String) : Event := .user "now".toList (.load ⟨[], [name.toList]⟩)

/-- The first sheet is shown, gets another comment, and makes room for the second one. -/
def editRun : List Event :=
  [loadOf "a.txt", .user [] (.edit 0 3 (.text "long".toList) .edit), loadOf "b.txt"]

/-- What is opened by the three events of the run. -/
theorem opened_editRun : ∀ n e p sheet h, editRun[n]? = some e →
    opened (deskAfter threeSheets editRun n) e = some (p, sheet, h) →
    (n = 0 ∧ p.parts = ["a.txt".toList]) ∨ (n = 2 ∧ p.parts = ["b.txt".toList]) := by
  intro n e p sheet h he ho
  have hparts : (opened (deskAfter threeSheets editRun n) e).map (fun found => found.1.parts) =
      some p.parts := by rw [ho]; rfl
  obtain rfl | rfl | rfl | hn : n = 0 ∨ n = 1 ∨ n = 2 ∨ 3 ≤ n := by omega
  · obtain rfl : loadOf "a.txt" = e := Option.some.inj he
    have ha : (opened (deskAfter threeSheets editRun 0) (loadOf "a.txt")).map
        (fun found => found.1.parts) = some ["a.txt".toList] := by decide +kernel
    exact .inl ⟨rfl, Option.some.inj (hparts.symm.trans ha)⟩
  · obtain rfl : Event.user [] (.edit 0 3 (.text "long".toList) .edit) = e := Option.some.inj he
    simp only [opened, reduceCtorEq] at ho
  · obtain rfl : loadOf "b.txt" = e := Option.some.inj he
    have hb : (opened (deskAfter threeSheets editRun 2) (loadOf "b.txt")).map
        (fun found => found.1.parts) = some ["b.txt".toList] := by decide +kernel
    exact .inr ⟨rfl, Option.some.inj (hparts.symm.trans hb)⟩
  · have hnone : editRun[n]? = none := List.getElem?_eq_none hn
    simp only [hnone, reduceCtorEq] at he

theorem not_strands_editRun (n : ℕ) : ¬Strands threeSheets editRun n := by
  rintro ⟨p, sheet, h, ho, hs, -⟩
  obtain ⟨e, he, ho⟩ := Option.bind_eq_some_iff.1 ho
  have hshown : ∀ {name}, e = loadOf name →
      (shown (deskAfter threeSheets editRun n) (loadOf name)).isSome = true → False := by
    rintro name rfl hsome
    rw [he, Option.bind_some] at hs
    simp [hs] at hsome
  rcases opened_editRun n e p sheet h he ho with ⟨rfl, -⟩ | ⟨rfl, -⟩
  · exact hshown (Option.some.inj he).symm (by decide +kernel)
  · exact hshown (Option.some.inj he).symm (by decide +kernel)

/-- The second load saves the comments on the first sheet beside it and leaves those on the
second. -/
theorem settings_provenance_edited :
    (∃ cfg, Derived threeSheets editRun 2 ["a.txt".toList] cfg ∧
      (deskAfter threeSheets editRun 3).host.disk.content? ["a.cfg".toList] =
        some (.text (Json.obj cfg).indented)) ∧
    (deskAfter threeSheets editRun 3).host.disk.content? ["b.cfg".toList] =
      (deskAfter threeSheets editRun 2).host.disk.content? ["b.cfg".toList] := by
  have hsheets : OpensSheets threeSheets editRun := by
    intro n e p sheet h he ho
    rcases opened_editRun n e p sheet h he ho with ⟨-, hp⟩ | ⟨-, hp⟩
    · exact ⟨['a'], by decide, by rw [hp]; rfl⟩
    · exact ⟨['b'], by decide, by rw [hp]; rfl⟩
  have hstrands : ∀ m ≤ 2, ¬Strands threeSheets editRun m := fun m _ => not_strands_editRun m
  have hka : IsSheetKey ["a.txt".toList] := ⟨['a'], by decide, rfl⟩
  have hkb : IsSheetKey ["b.txt".toList] := ⟨['b'], by decide, rfl⟩
  have ha : sidecarKey ["a.txt".toList] = ["a.cfg".toList] := by decide +kernel
  have hb : sidecarKey ["b.txt".toList] = ["b.cfg".toList] := by decide +kernel
  have hcurrent : (deskAfter threeSheets editRun 2).window.current.map Path.parts =
      some ["a.txt".toList] := by decide +kernel
  have hdiffers : (deskAfter threeSheets editRun (2 + 1)).host.disk.content? ["a.cfg".toList] ≠
      (deskAfter threeSheets editRun 2).host.disk.content? ["a.cfg".toList] := by decide +kernel
  have hsaved : (deskAfter threeSheets editRun 2).settings?.map (fun cfg => (Settings.written
      (deskAfter threeSheets editRun 2).host.conditions (.obj cfg)).1) = some (.ok ()) := by
    decide +kernel
  have hevent : editRun[2]? = some (.user "now".toList (.load ⟨[], ["b.txt".toList]⟩)) := rfl
  obtain ⟨-, -, hchanged, hkept⟩ := settings_provenance hsheets 2
  rw [← ha] at hdiffers
  rw [← ha, ← hb, show (3 : ℕ) = 2 + 1 from rfl]
  constructor
  · obtain ⟨k, cfg, t, hcfg, -, hderived, htext, -, hwhole, hk⟩ :=
      hchanged _ _ ["a.txt".toList] hevent hka hdiffers
    rw [hk hstrands] at hderived
    rw [hcfg] at hsaved
    exact ⟨cfg, hderived, by rw [htext, hwhole (Option.some.inj hsaved)]⟩
  · refine hkept hstrands _ _ ["b.txt".toList] hevent hkb ?_
    intro p hp
    rw [hp, Option.map_some] at hcurrent
    rw [Option.some.inj hcurrent]
    decide

/-- The first sheet is shown, and then the last one is tried. -/
def strandingRun : List Event := [loadOf "a.txt", loadOf "c.txt"]

/-- Whether the window reported an error. -/
def complains (d : Desktop) : Bool :=
  d.window.notices.any fun
    | .box .critical _ _ => true
    | _ => false

/-- **A load that ends with an error overwrites the comments** on a sheet with those on another. -/
theorem stranding_load_overwrites :
    (deskAfter threeSheets strandingRun 1).window.current.map Path.parts = some ["a.txt".toList] ∧
    complains (deskAfter threeSheets strandingRun 1) = false ∧
    complains (deskAfter threeSheets strandingRun 2) = true ∧
    (deskAfter threeSheets strandingRun 1).host.disk.content? ["c.cfg".toList] =
      some (.text "\x7b\"comments\": \x7b\"z\": \"height\"\x7d\x7d".toList) ∧
    (deskAfter threeSheets strandingRun 2).host.disk.content? ["c.cfg".toList] =
      some (.text ("\x7b\n  \"comments\": \x7b\n    \"x\": \"width\"\n  \x7d,\n" ++
        "  \"version\": 1,\n  \"locked\": false,\n  \"log_level\": \"INFO\",\n" ++
        "  \"last_opened\": \"now\"\n\x7d").toList) := by
  refine ⟨?_, ?_, ?_, ?_, ?_⟩
  all_goals decide +kernel

end EquationSheet.Provenance
