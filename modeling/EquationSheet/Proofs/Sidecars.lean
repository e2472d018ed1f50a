import EquationSheet.Proofs.Opening

/-!
# Settings that a sheet can be shown under

Whatever lies beside a sheet is read as its settings: any bytes, and any JSON value that they may be.
Most of what cannot be settings counts as not being there. What is an object is used as it is, with
comments of any kind. Only comments that are an object themselves serve a table that has cells.

* `Settings.Suits`: the settings serve a sheet of the given slots.
* `Settings.Usable`, `usable_iff`: what lies beside a sheet can be read, and suits it.
* `Session.Serves`, `serves_of_sturdy`: looking at cells and editing comments is always answered.
* `showing_serves_iff`, `load_serves_iff_usable`: **a sheet is shown and serves exactly if its
  settings are usable**.
-/

namespace EquationSheet

namespace Store

variable {slots : List Text} {rows : List (Text × Text)}

/-- Only a sheet without slots has no variables. -/
theorem rows_eq_nil_iff (h : entries slots = .ok rows) : rows = [] ↔ slots = [] := by
  obtain ⟨-, rfl⟩ := entries_eq_ok_iff.1 h
  cases slots with
  | nil => simp
  | cons slot slots =>
    refine iff_of_false (fun hnil => ?_) (by simp)
    have hlookup := lookup_foldl_putRow ((slot :: slots).map rowOf) [] (rowOf slot).1
    rw [hnil, List.lookup_nil, Option.or_none, eq_comm, List.lookup_eq_none_iff] at hlookup
    have hfirst := hlookup (rowOf slot) (by simp)
    simp at hfirst

end Store

/-! ### Settings that suit a sheet -/

namespace Settings

variable {ms : Members} {slots : List Text} {names : List Text} {now : Text} {s : Path} {h : Host}
  {cfg : Members}

/-- The comments are an object. A sheet without slots asks only that they can be pruned of all names.
-/
def Suits (slots : List Text) (ms : Members) : Prop :=
  HasComments ms ∨ slots = [] ∧
    (pruneComments [] ((ms.get? commentsKey).getD (.obj []))).1 = .ok ()

/-- What lies at a path can be looked for, is not nested too deeply, and suits the sheet if it is an
object. -/
structure Usable (slots : List Text) (s : Path) (h : Host) : Prop where
  findable : ∃ there, h.disk.pathExists s = .ok there
  shallow : h.disk.pathExists s = .ok true →
    (fileText? s h.disk).map (Json.parseWithin h.conditions.limits.read) ≠ some (.error .tooDeep)
  suits : h.disk.pathExists s = .ok true →
    ∀ ms, (fileText? s h.disk).map (Json.parseWithin h.conditions.limits.read) = some (.ok (.obj ms)) →
      Suits slots ms

/-- Members that are added leave the comments. -/
theorem get?_complete (ms : Members) :
    (complete ms).get? commentsKey = some ((ms.get? commentsKey).getD (.obj [])) := by
  have hne : commentsKey ≠ lastOpenedKey ∧ commentsKey ≠ logLevelKey ∧ commentsKey ≠ lockedKey ∧
      commentsKey ≠ versionKey := by decide
  obtain ⟨hlast, hlevel, hlocked, hversion⟩ := hne
  unfold complete
  simp only [Members.get?_putDefault, if_neg hlast, if_neg hlevel, if_neg hlocked, if_neg hversion,
    if_pos]

theorem hasComments_iff : HasComments ms ↔
    ∃ comments, (ms.get? commentsKey).getD (.obj []) = .obj comments := by
  refine ⟨HasComments.exists_obj, fun ⟨comments, hobj⟩ j hj => ⟨comments, ?_⟩⟩
  rwa [hj, Option.getD_some] at hobj

theorem suits_complete : Suits slots (complete ms) ↔ Suits slots ms := by
  unfold Suits
  rw [hasComments_iff, hasComments_iff, get?_complete, Option.getD_some]

instance (ms : Members) : Decidable (HasComments ms) :=
  decidable_of_iff ((match (ms.get? commentsKey).getD (.obj []) with
    | .obj _ => true
    | _ => false) = true) (by rw [hasComments_iff]; split <;> simp_all)

instance (slots : List Text) (ms : Members) : Decidable (Suits slots ms) :=
  inferInstanceAs (Decidable (_ ∨ _ ∧ _))

/-- Whether what lies at a path is usable. -/
def isUsable (slots : List Text) (s : Path) (h : Host) : Bool :=
  match h.disk.pathExists s with
  | .error _ => false
  | .ok false => true
  | .ok true =>
    match (fileText? s h.disk).map (Json.parseWithin h.conditions.limits.read) with
    | some (.error .tooDeep) => false
    | some (.ok (.obj ms)) => decide (Suits slots ms)
    | _ => true

theorem isUsable_iff : isUsable slots s h = true ↔ Usable slots s h := by
  unfold isUsable
  cases hexists : h.disk.pathExists s with
  | error fault =>
    refine iff_of_false (by simp) fun husable => ?_
    obtain ⟨there, hthere⟩ := husable.findable
    simp [hexists] at hthere
  | ok there =>
    cases there with
    | false => exact iff_of_true rfl ⟨⟨false, hexists⟩, by simp [hexists], by simp [hexists]⟩
    | true =>
      -- only an object asks for more than not to be nested too deeply
      have husable : Usable slots s h ↔
          (fileText? s h.disk).map (Json.parseWithin h.conditions.limits.read) ≠
            some (.error .tooDeep) ∧
          ∀ ms, (fileText? s h.disk).map (Json.parseWithin h.conditions.limits.read) =
            some (.ok (.obj ms)) → Suits slots ms :=
        ⟨fun h => ⟨h.shallow hexists, h.suits hexists⟩,
          fun h => ⟨⟨true, hexists⟩, fun _ => h.1, fun _ => h.2⟩⟩
      rw [husable]
      rcases (fileText? s h.disk).map (Json.parseWithin h.conditions.limits.read) with _ | (_ | _) | j
      · simp
      · simp
      · simp
      · cases j <;> simp

instance (slots : List Text) (s : Path) (h : Host) : Decidable (Usable slots s h) :=
  decidable_of_iff _ isUsable_iff

/-- **What is usable** is read as settings that suit the sheet. -/
theorem usable_iff : Usable slots s h ↔ ∃ ms, (load s h).1 = .ok ms ∧ Suits slots ms := by
  have hinitial : Suits slots initial := .inl hasComments_initial
  rw [← isUsable_iff]
  unfold isUsable load ignoring
  rcases h.disk.pathExists s with fault | (_ | _)
  · simp
  · simp [hinitial]
  · simp only
    rcases (fileText? s h.disk).map (Json.parseWithin h.conditions.limits.read) with _ | (_ | _) | j
    · simp [hinitial]
    · simp [hinitial]
    · simp
    · cases j <;> simp [hinitial, suits_complete]

/-- Only an object is pruned to an object. -/
theorem exists_obj_of_pruned {names : List Units} {j : Json} {comments : Members}
    (hpruned : (pruneComments names j).2 = .obj comments) : ∃ before, j = .obj before := by
  cases j with
  | obj before => exact ⟨before, rfl⟩
  | arr items => simp [pruneComments] at hpruned
  | _ => simp [pruneComments] at hpruned

theorem exists_obj_of_comment {name : Text} {j : Json} (h : comment ms name = .ok j) :
    HasComments ms := by
  refine hasComments_iff.2 ?_
  unfold comment at h
  split at h
  · rename_i comments hobj
    exact ⟨comments, hobj⟩
  · simp at h

/-- Settings that suit the sheet are brought up to date, and still suit it. -/
theorem exists_reconcile_of_suits (hms : Suits slots ms) (hnames : slots = [] → names = [])
    (now : Text) : ∃ cfg, reconcile names now ms = (.ok (), cfg) ∧ (HasComments cfg ∨ slots = []) := by
  rcases hms with hms | ⟨hslots, hpruned⟩
  · obtain ⟨cfg, hcfg, hcomments⟩ := exists_reconcile hms names now
    exact ⟨cfg, hcfg, .inl hcomments⟩
  · rcases reconcile_cases names now ms with ⟨fault, cfg, -, hfault⟩ | ⟨pruned, cfg, hcfg, -, -⟩
    · rw [hnames hslots, List.map_nil, hpruned] at hfault
      simp at hfault
    · exact ⟨cfg, hcfg, .inr hslots⟩

/-- What serves a table once it is up to date suited the sheet before. -/
theorem suits_of_reconcile (hcfg : reconcile names now ms = (.ok (), cfg))
    (hnames : slots = [] → names = []) (hserves : HasComments cfg ∨ slots = []) : Suits slots ms := by
  rcases reconcile_cases names now ms with ⟨fault, cfg', hfault, -⟩ |
    ⟨pruned, cfg', hcfg', hpruned, hget⟩
  · simp [hcfg] at hfault
  obtain rfl : cfg = cfg' := by simpa [hcfg] using hcfg'
  rcases hserves with hcomments | hslots
  · obtain ⟨comments, rfl⟩ := hcomments pruned hget
    exact .inl (hasComments_iff.2 (exists_obj_of_pruned (congrArg Prod.snd hpruned)))
  · rw [hnames hslots, List.map_nil] at hpruned
    exact .inr ⟨hslots, congrArg Prod.fst hpruned⟩

end Settings

/-! ### Tables that serve -/

namespace Table

variable {t : Table} {h : Host}

/-- A cell is looked at, or a comment is edited to any text. -/
def Call.IsViewing : Call → Prop
  | .look .. => True
  | .edit _ column v _ _ => column = 3 ∧ ∃ entered, v = .text entered

/-- **Every such call is answered**, after any others. -/
def Session.Serves (s : Session) : Prop :=
  ∀ calls : List Call, (∀ c ∈ calls, c.IsViewing) → ∀ c : Call, c.IsViewing →
    ∃ a, (calls.foldl Session.step s).answer c = .ok a

theorem Call.IsViewing.isRendered {c : Call} (hc : c.IsViewing) : c.IsRendered := by
  cases c with
  | look row column role => trivial
  | edit row column v role fault =>
    obtain ⟨-, entered, rfl⟩ := hc
    exact ⟨entered, rfl⟩

/-- Rows can be read again, and comments are an object or there are no cells. -/
def Sturdy (t : Table) : Prop := t.Coherent ∨ t.rows = []

theorem index?_of_no_rows (ht : t.rows = []) (row column : ℤ) : t.index? row column = none := by
  unfold index?
  rw [if_neg]
  rintro ⟨hrow, hlt, -⟩
  rw [ht] at hlt
  simp at hlt
  omega

theorem set_of_no_rows (ht : t.rows = []) (row column : ℤ) (v : Scalar) (role : CellRole) :
    t.set row column v role h = (⟨.ok false, t, []⟩, h) := by
  unfold set
  rw [index?_of_no_rows ht]
  cases role <;> rfl

namespace Session

variable {s : Session}

/-- **A table that is sturdy stays so.** -/
theorem sturdy_step (hs : s.table.Sturdy) {c : Call} (hc : c.IsViewing) : (s.step c).table.Sturdy := by
  rcases hs with hs | hs
  · exact .inl (coherent_step hs hc.isRendered)
  · cases c with
    | look row column role => exact .inr hs
    | edit row column v role fault =>
      have hunder : (s.under fault).rows = [] := hs
      right
      simp only [step, set_of_no_rows hunder]
      exact hunder

theorem exists_answer_of_sturdy (hs : s.table.Sturdy) {c : Call} (hc : c.IsViewing) :
    ∃ a, s.answer c = .ok a := by
  rcases hs with hs | hs
  · obtain ⟨a, ha, -⟩ := exists_answer hs hc.isRendered
    exact ⟨a, ha⟩
  · cases c with
    | look row column role =>
      refine ⟨.shown none, ?_⟩
      simp only [answer, cell, index?_of_no_rows hs, Except.map]
    | edit row column v role fault =>
      have hunder : (s.under fault).rows = [] := hs
      refine ⟨.edited false [], ?_⟩
      simp only [answer, set_of_no_rows hunder, Except.map]

/-- **A sturdy table serves.** -/
theorem serves_of_sturdy (hs : s.table.Sturdy) : s.Serves := by
  intro calls hcalls c hc
  induction calls generalizing s with
  | nil => exact exists_answer_of_sturdy hs hc
  | cons c' calls ih =>
    obtain ⟨hc', hcalls⟩ := List.forall_mem_cons.1 hcalls
    exact ih (sturdy_step hs hc') hcalls

/-- A table that serves has comments that can be shown, or nothing to show. -/
theorem comments_of_serves (hs : s.Serves) :
    Settings.HasComments s.table.settings ∨ s.table.rows = [] := by
  cases hrows : s.table.rows with
  | nil => exact .inr rfl
  | cons row rows =>
    left
    -- the comment in the first row is looked at
    obtain ⟨a, ha⟩ := hs [] (by simp) (.look 0 3 .display) trivial
    have hindex : s.table.index? 0 3 = some (0, 3) := by
      unfold index?
      rw [if_pos (by simp [hrows, columns])]
      rfl
    simp only [List.foldl_nil, answer, cell, hindex, hrows, List.getElem?_cons_zero, cellOf] at ha
    cases hcomment : Settings.comment s.table.settings row.1 with
    | error fault => simp [hcomment, Except.map] at ha
    | ok j => exact Settings.exists_obj_of_comment hcomment

end Session

end Table

/-! ### Whatever lies beside a sheet -/

namespace Desktop

open Table

variable {d : Desktop} {p s : Path} {sheet : SheetFile} {names : List Text} {now : Text}

/-- **A sheet that was opened is shown and serves** exactly if settings that suit it are read. -/
theorem showing_serves_iff (hn : Store.names sheet.slots = .ok names) (hs : p.sidecar? = some s)
    (hopen : sheet.lock.spent = false) :
    ((d.showing p sheet now).1 = .ok () ∧ ∀ t, (d.showing p sheet now).2.window.table = some t →
      Session.Serves ⟨t, (d.showing p sheet now).2.host⟩) ↔
    ∃ ms, (Settings.load s d.host).1 = .ok ms ∧ Settings.Suits sheet.slots ms := by
  have hnames : sheet.slots = [] → names = [] := by
    intro hslots
    rw [hslots] at hn
    exact (Except.ok.inj hn).symm
  constructor
  · rintro ⟨hok, hserves⟩
    cases hsome : settingsFor p sheet now d.host with
    | none =>
      obtain ⟨fault, hfault, -⟩ := showing_of_no_settings hn hs hsome
      simp [hok] at hfault
    | some cfg =>
      obtain ⟨-, ⟨t, ht⟩, -⟩ := showing_of_settings hsome
      cases hload : (Settings.load s d.host).1 with
      | error fault =>
        rw [settingsFor_of_load_error hs hload] at hsome
        simp at hsome
      | ok ms =>
        refine ⟨ms, rfl, ?_⟩
        rw [settingsFor_of_load hn hs hload] at hsome
        split at hsome
        · rename_i cfg' hcfg
          obtain rfl := Option.some.inj hsome
          refine Settings.suits_of_reconcile hcfg hnames ?_
          have hcomments := Session.comments_of_serves (hserves t ht.table)
          rw [ht.settings, Store.rows_eq_nil_iff ht.rows] at hcomments
          exact hcomments
        · simp at hsome
  · -- comments that are an object stay one, and a sheet without slots has no cell to ask for
    rintro ⟨ms, hload, hsuits⟩
    obtain ⟨cfg, hcfg, hcomments⟩ := Settings.exists_reconcile_of_suits hsuits hnames now
    have hsome : settingsFor p sheet now d.host = some cfg := by
      rw [settingsFor_of_load hn hs hload, hcfg]
    obtain ⟨hok, ⟨t, ht⟩, -⟩ := showing_of_settings hsome
    refine ⟨hok, fun t' ht' => Session.serves_of_sturdy ?_⟩
    obtain rfl := Option.some.inj (ht.table.symm.trans ht')
    rcases hcomments with hcomments | hslots
    · refine .inl ⟨?_, ht.settings ▸ hcomments, ?_⟩
      · rw [ht.source]
        exact ht.rows
      · rw [ht.source]
        exact hopen
    · exact .inr ((Store.rows_eq_nil_iff ht.rows).2 hslots)

/-- **Once the sheet held before was closed**, a sheet is shown and serves exactly if what lies beside
it is usable. -/
theorem load_serves_iff_of_closed {d' : Desktop} {q : Path} {k : Key} {t : Text} (now : Text)
    (hclose : d.closeCurrent = (.ok (), d')) (hq : Offers d'.host q k (.text t))
    (hallowed : d'.host.conditions.denial ≠ .everything)
    (hequals : ∀ slot ∈ Sheet.split t, '=' ∈ slot) :
    ((d.load q now).1 = .ok () ∧ (∀ tbl, (d.load q now).2.window.table = some tbl →
        Session.Serves ⟨tbl, (d.load q now).2.host⟩) ↔
      ∃ s, (d'.host.resolve q).sidecar? = some s ∧
        Settings.Usable (Sheet.split t) s d'.host) ∧
    ((d.load q now).1 = .ok () → (d.load q now).2.Shows (d'.host.resolve q) t) := by
  obtain ⟨sheet, h, hslots, hopened, hconditions, hload⟩ := load_of_text now hclose hq hallowed
  obtain ⟨s, hs⟩ := hq.exists_sidecar
  obtain ⟨rows, hrows⟩ : ∃ rows, Store.entries sheet.slots = .ok rows :=
    ⟨_, Store.entries_eq_ok_iff.2 ⟨hslots ▸ hequals, rfl⟩⟩
  have hn : Store.names sheet.slots = .ok (rows.map Prod.fst) := by
    unfold Store.names
    rw [hrows]
    rfl
  set d₁ := d'.hold (d'.host.resolve q) sheet h
  have hnodes : d₁.host.disk.nodes = d'.host.disk.nodes := hopened.keeps.nodes
  rw [hload]
  refine ⟨?_, shows_of_showing hslots hn hs rfl⟩
  rw [showing_serves_iff hn hs hopened.spent,
    Settings.load_of_nodes hnodes (congrArg Conditions.limits hconditions), hslots, ← Settings.usable_iff]
  constructor
  · exact fun husable => ⟨s, hs, husable⟩
  · rintro ⟨s', hs', husable⟩
    obtain rfl := Option.some.inj (hs.symm.trans hs')
    exact husable

end Desktop

namespace LockKeeping

open Desktop Table

variable {w : World} {q : Path} {k : Key} {t : Text}

/-- **A sheet is shown and serves exactly if its settings are usable.** Whatever the window did before,
among any other programs, a sheet that may be opened and whose slots all have an equals sign is loaded.
Then

* the load comes to its end, and after it any looking at cells and editing of comments is answered, if
  and only if the sheet held before is closed without a fault, and what lies beside the new one can be
  looked for, is nested no more deeply than the host goes down, and has comments that are an object in
  case it is an object itself (or, of a sheet without slots, comments that can be pruned);
* a load that comes to its end shows the sheet;
* if closing the sheet held before ends in a fault the load ends in the same one, and then the settings
  shown go down too many levels or something was left to write to that sheet. -/
theorem load_serves_iff_usable (hw : Reachable w) (now : Text)
    (hq : Offers (w.act now .close).desk.host q k (.text t))
    (hallowed : (w.act now .close).desk.host.conditions.denial ≠ .everything)
    (hequals : ∀ slot ∈ Sheet.split t, '=' ∈ slot) :
    ((w.desk.act now (.load q)).1 = .ok none ∧
      (∀ tbl, (w.act now (.load q)).desk.window.table = some tbl →
        Session.Serves ⟨tbl, (w.act now (.load q)).desk.host⟩) ↔
      (w.desk.act now .close).1 = .ok none ∧
        ∃ s, ((w.act now .close).desk.host.resolve q).sidecar? = some s ∧
          Settings.Usable (Sheet.split t) s (w.act now .close).desk.host) ∧
    ((w.desk.act now (.load q)).1 = .ok none →
      (w.act now (.load q)).desk.Shows ((w.act now .close).desk.host.resolve q) t) ∧
    (∀ fault, (w.desk.act now .close).1 = .error fault →
      (w.desk.act now (.load q)).1 = .error fault ∧ (¬w.desk.Shallow ∨ ¬w.desk.Settled)) := by
  have hload : w.desk.act now (.load q) =
      ((w.desk.load q now).1.map fun _ => none, (w.desk.load q now).2) := rfl
  have hunclosed : ∀ fault, (w.desk.act now .close).1 = .error fault →
      (w.desk.act now (.load q)).1 = .error fault ∧ (¬w.desk.Shallow ∨ ¬w.desk.Settled) :=
    fun _ hfault => load_of_unclosed (kept_of_reachable hw) q hfault
  cases hact : (w.desk.act now .close).1 with
  | error fault =>
    obtain ⟨hfault, hwhy⟩ := hunclosed fault hact
    refine ⟨iff_of_false (fun h => ?_) (by simp), fun h => ?_, fun fault' h => ?_⟩
    · exact absurd (hfault.symm.trans h.1) (by simp)
    · exact absurd (hfault.symm.trans h) (by simp)
    · obtain rfl := Except.error.inj h
      exact ⟨hfault, hwhy⟩
  | ok outcome =>
    have hclose := closeCurrent_of_closed hact
    obtain rfl : outcome = none := by
      simp only [act, hclose, Except.map] at hact
      exact (Except.ok.inj hact).symm
    obtain ⟨hserves, hshows⟩ := load_serves_iff_of_closed now hclose hq hallowed hequals
    have hok : (w.desk.act now (.load q)).1 = .ok none ↔ (w.desk.load q now).1 = .ok () := by
      rw [hload]
      cases (w.desk.load q now).1 <;> simp [Except.map]
    rw [hok, ← hserves]
    exact ⟨by simp [World.act, hload], hshows, by simp⟩

/-- A sheet with a text beside it where its settings would be. -/
def sheetBeside (settings : String) : World where
  desk := { host := { disk := { nodes := [(["a.txt".toList], .file (.text "\"x\"=1mm\n".toList)),
    (["a.cfg".toList], .file (.text settings.toList))] }, directory := ⟨['/'], []⟩ } }
  others := []

/-- Settings with a comment that is none, and with a member of a wrong kind. -/
def oddSettings : String := "\x7b\"comments\": \x7b\"x\": null\x7d, \"locked\": [7]\x7d"

theorem load_serves_iff_usable_odd :
    ((sheetBeside oddSettings).desk.act [] (.load ⟨[], ["a.txt".toList]⟩)).1 = .ok none ∧
    ∀ tbl, ((sheetBeside oddSettings).act [] (.load ⟨[], ["a.txt".toList]⟩)).desk.window.table =
      some tbl → Session.Serves ⟨tbl,
        ((sheetBeside oddSettings).act [] (.load ⟨[], ["a.txt".toList]⟩)).desk.host⟩ := by
  have hreach : Reachable (sheetBeside oddSettings) := .starts _ rfl
  have hoffers : Offers ((sheetBeside oddSettings).act [] .close).desk.host ⟨[], ["a.txt".toList]⟩
      ["a.txt".toList] (.text "\"x\"=1mm\n".toList) :=
    ⟨by decide, by decide +kernel, by decide +kernel, by decide +kernel⟩
  have husable : Settings.Usable (Sheet.split "\"x\"=1mm\n".toList) ⟨['/'], ["a.cfg".toList]⟩
      ((sheetBeside oddSettings).act [] .close).desk.host := by
    decide +kernel
  exact (load_serves_iff_usable hreach [] hoffers (by decide) (by decide +kernel)).1.2
    ⟨by decide +kernel, _, by decide +kernel, husable⟩

/-- Comments that are no object keep the sheet from being shown. Comments that are an empty list do
not, but then neither can a comment be shown nor edited. -/
theorem comments_break_viewer :
    ((sheetBeside "\x7b\"comments\": null\x7d").desk.act [] (.load ⟨[], ["a.txt".toList]⟩)).1 =
      .error .wrongKind ∧
    ((sheetBeside "\x7b\"comments\": []\x7d").desk.act [] (.load ⟨[], ["a.txt".toList]⟩)).1 =
      .ok none ∧
    ((sheetBeside "\x7b\"comments\": []\x7d").act [] (.load ⟨[], ["a.txt".toList]⟩)).desk.window.table.map
      (fun tbl => ((tbl.cell 0 3 .display).map fun _ => (),
        (tbl.set 0 3 (.text "wide".toList) .edit {}).1.outcome)) =
      some (.error .missingPart, .error .wrongKind) := by
  decide +kernel

end LockKeeping

end EquationSheet
