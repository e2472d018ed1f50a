import EquationSheet.Log.Logging
import EquationSheet.Proofs.Closing
import EquationSheet.Proofs.Traces

/-!
# Lines on the console and in log files

Logging is set up and set up again, and records are logged in between. After every set-up the sinks
are the console and the log file that it opened, if it opened one, and both take what the logger
passes on. So an event does one of two things: it prints nothing, or it prints the line of its record
on the console and adds the same line to the file.

* `Logging.IsSound`: the sinks that a set-up leaves.
* `step_cases`: what an event prints, and the file it writes.
* `file?_step`: the file that records are added to after an event.
* `lines_in_both_sinks`: **the console and the log file have the same lines**.
-/

namespace EquationSheet

open Text

/-- The key of a log file. -/
def Sink.key? : Sink → Option Key
  | .console => none
  | .file k => some k

namespace Logging

variable {l : Logging} {level : ℤ} {file : Option Key} {d : Disk} {time : String} {r : LogRecord}

/-- The console, and a log file if one is open, all at one level. -/
def sinks (level : ℤ) (file : Option Key) : List Handler :=
  ⟨.console, level⟩ :: (file.map fun k => ⟨.file k, level⟩).toList

/-- The log file that records are added to. -/
def file? (l : Logging) : Option Key := l.handlers.findSome? fun handler => handler.sink.key?

@[simp] theorem findSome?_sinks (level : ℤ) (file : Option Key) :
    (sinks level file).findSome? (fun handler => handler.sink.key?) = file := by
  cases file <;> rfl

/-- There is no sink, or there are those of a set-up, at the level of the logger. -/
def IsSound (l : Logging) : Prop := l.handlers = [] ∨ l.handlers = sinks l.level l.file?

/-- The logger passes a record on to the sinks. -/
def takes (l : Logging) (r : LogRecord) : Bool := l.passesOn r.logger && l.isEnabled r.level

/-- Adds a line to the log file, if one is open. -/
def addLine (d : Disk) (line : Text) : Option Key → Disk
  | none => d
  | some k => append d k line

theorem level_le_of_takes (h : l.takes r = true) : l.level ≤ r.level := by
  unfold takes isEnabled at h
  simp only [Bool.and_eq_true, decide_eq_true_eq] at h
  obtain ⟨-, hpositive, hthreshold⟩ := h
  unfold threshold at hthreshold
  split at hthreshold <;> omega

/-- A line that reaches the level of the sinks goes to all of them. -/
theorem deliver_sinks {least : ℤ} (hlevel : least ≤ level) (line : Text) (file : Option Key)
    (d : Disk) : deliver line level (sinks least file) d = (line, addLine d line file) := by
  cases file with
  | none => simp [sinks, deliver, hlevel, addLine]
  | some k => simp [sinks, deliver, hlevel, addLine]

/-- **A record** is passed to no sink, or to all of them. -/
theorem emit_eq (hl : l.IsSound) (time : String) (r : LogRecord) (d : Disk) : l.emit time r d =
    if l.handlers ≠ [] ∧ l.takes r = true then
      ((r.line time).toList, addLine d (r.line time).toList l.file?)
    else ([], d) := by
  show (if l.takes r = true then deliver (r.line time).toList r.level l.handlers d else ([], d)) = _
  by_cases htakes : l.takes r = true
  · have hlevel : l.level ≤ r.level := level_le_of_takes htakes
    rw [if_pos htakes]
    rcases hl with hnone | hsinks
    · simp [hnone, deliver]
    · have hsome : l.handlers ≠ [] := by
        rw [hsinks]
        exact List.cons_ne_nil _ _
      rw [if_pos ⟨hsome, htakes⟩, hsinks, deliver_sinks hlevel]
  · rw [if_neg htakes, if_neg fun h => htakes h.2]

/-- **A record** prints nothing, or its line, which is added to the log file too. -/
theorem emit_cases (hl : l.IsSound) (time : String) (r : LogRecord) (d : Disk) :
    l.emit time r d = ([], d) ∨
      l.emit time r d = ((r.line time).toList, addLine d (r.line time).toList l.file?) := by
  rw [emit_eq hl]
  split
  · exact .inr rfl
  · exact .inl rfl

/-! ### Set-up -/

/-- The key under which a set-up opens its log file, if it names one that can be opened. -/
def opens? (d : Disk) : Option Path → Option Key
  | none => none
  | some p =>
    if !p.collapse.isNameable then none
    else
      match d.locateTarget p.collapse with
      | .ok k => some k
      | .error _ => none

/-- A set-up names a log file that cannot be opened. -/
def Fails (d : Disk) (path : Option Path) : Prop := path ≠ none ∧ opens? d path = none

/-- The sinks are replaced. -/
def reset (l : Logging) (level : ℤ) (file : Option Key) : Logging :=
  { l with level, handlers := sinks level file }

/-- Empties the log file that is opened, if any. -/
def emptied (d : Disk) : Option Key → Disk
  | none => d
  | some k => d.write k (.text [])

variable {k : Key} {path : Option Path} {json : Json}

@[simp] theorem file?_reset (l : Logging) (level : ℤ) (file : Option Key) :
    (l.reset level file).file? = file := findSome?_sinks level file

theorem isSound_reset (l : Logging) (level : ℤ) (file : Option Key) :
    (l.reset level file).IsSound := by
  right
  rw [file?_reset]
  rfl

theorem opens?_eq_some_iff : opens? d path = some k ↔
    ∃ p, path = some p ∧ p.collapse.isNameable = true ∧ d.locateTarget p.collapse = .ok k := by
  cases path with
  | none => simp [opens?]
  | some p =>
    unfold opens?
    cases hname : p.collapse.isNameable with
    | false => simp [hname]
    | true => cases hlocated : d.locateTarget p.collapse <;> simp [hname, hlocated]

/-- A log file is not the root of the disk. -/
theorem ne_nil_of_opens (h : opens? d path = some k) : k ≠ [] := by
  obtain ⟨p, -, -, hlocated⟩ := opens?_eq_some_iff.1 h
  rintro rfl
  exact Disk.node?_of_locateTarget hlocated rfl

/-- **A set-up that fails** leaves the console as the only sink, and does nothing more. -/
theorem setup_of_fails (hlevel : levelOf json = .ok level) (h : Fails d path) (l : Logging)
    (time : String) : ∃ fault, l.setup time json path d = ⟨.error fault, l.reset level none, [], d⟩ := by
  obtain ⟨hnamed, hunopened⟩ := h
  obtain ⟨p, rfl⟩ := Option.ne_none_iff_exists'.1 hnamed
  unfold setup
  rw [hlevel]
  unfold opens? at hunopened
  cases hname : p.collapse.isNameable with
  | false => exact ⟨.badPath, by simp [hname, reset, sinks]⟩
  | true =>
    cases hlocated : d.locateTarget p.collapse with
    | ok k => simp [hname, hlocated] at hunopened
    | error cause => exact ⟨_, by simp [hname, hlocated, reset, sinks]; rfl⟩

/-- **A set-up that goes through** logs that it is done, to the sinks that it leaves. -/
theorem setup_of_not_fails (hlevel : levelOf json = .ok level) (h : ¬Fails d path) (l : Logging)
    (time : String) : l.setup time json path d = ⟨.ok (), l.reset level (opens? d path),
      ((l.reset level (opens? d path)).emit time initialized (emptied d (opens? d path))).1,
      ((l.reset level (opens? d path)).emit time initialized (emptied d (opens? d path))).2⟩ := by
  unfold setup
  rw [hlevel]
  cases path with
  | none => rfl
  | some p =>
    unfold Fails at h
    unfold opens? at h ⊢
    cases hname : p.collapse.isNameable with
    | false => simp [hname] at h
    | true =>
      cases hlocated : d.locateTarget p.collapse with
      | error cause => simp [hname, hlocated] at h
      | ok k => simp [hname, hlocated, reset, sinks, emptied]

/-- **A set-up** replaces the level and the sinks, whether or not it goes through. -/
theorem logging_setup (hlevel : levelOf json = .ok level) (l : Logging) (time : String)
    (path : Option Path) (d : Disk) :
    (l.setup time json path d).logging = l.reset level (opens? d path) := by
  by_cases hfails : Fails d path
  · obtain ⟨fault, hsetup⟩ := setup_of_fails hlevel hfails l time
    rw [hsetup, hfails.2]
  · rw [setup_of_not_fails hlevel hfails l time]

end Logging

/-! ### The log files on the disk -/

namespace Logging

variable {d : Disk} {k : Key} {file : Option Key}

theorem content?_addLine {t : Text} (hk : d.content? k = some (.text t)) (line : Text) :
    (addLine d line (some k)).content? k = some (.text (t ++ line)) := by
  have hne : k ≠ [] := Disk.ne_nil_of_content? hk
  simp only [addLine, append, hk]
  rw [Disk.content?_write hne, if_pos rfl]

theorem content?_addLine_of_ne (h : file ≠ some k) (d : Disk) (line : Text) :
    (addLine d line file).content? k = d.content? k := by
  cases file with
  | none => rfl
  | some k' =>
    have hne : k ≠ k' := fun heq => h (congrArg some heq.symm)
    show (append d k' line).content? k = d.content? k
    unfold append
    split <;> exact Disk.content?_write_of_ne hne _

theorem content?_emptied (hk : k ≠ []) (d : Disk) :
    (emptied d (some k)).content? k = some (.text []) := by
  unfold emptied
  rw [Disk.content?_write hk, if_pos rfl]

theorem content?_emptied_of_ne (h : file ≠ some k) (d : Disk) :
    (emptied d file).content? k = d.content? k := by
  cases file with
  | none => rfl
  | some k' =>
    have hne : k ≠ k' := fun heq => h (congrArg some heq.symm)
    exact Disk.content?_write_of_ne hne _

end Logging

/-! ### Events -/

namespace LogSinks

/-- The level of a set-up is a number or a name. -/
inductive LevelArgument
  | number (n : ℤ)
  | name (units : Units)

def LevelArgument.json : LevelArgument → Json
  | .number n => .int n
  | .name units => .str units

theorem LevelArgument.exists_level (level : LevelArgument) :
    ∃ n, Logging.levelOf level.json = .ok n := by
  cases level with
  | number n => exact ⟨n, rfl⟩
  | name units => exact ⟨_, rfl⟩

/-- Logging is set up, or a record is logged, each at a time of day. -/
inductive Event
  | setup (time : String) (level : LevelArgument) (path : Option Path)
  | record (time : String) (r : LogRecord)

namespace Event

def IsSetup : Event → Prop
  | setup .. => True
  | record .. => False

/-- The line of the record that is logged. -/
def line : Event → Text
  | setup time _ _ => (Logging.initialized.line time).toList
  | record time r => (r.line time).toList

end Event

/-- The logging of a program, its disk, and what is on the console. -/
structure World where
  logging : Logging
  disk : Disk
  console : Text

namespace World

/-- A set-up, at a time of day. -/
def setUp (w : World) (time : String) (level : LevelArgument) (path : Option Path) : Logging.Setup :=
  w.logging.setup time level.json path w.disk

def step (w : World) : Event → World
  | .setup time level path =>
    let set := w.setUp time level path
    ⟨set.logging, set.disk, w.console ++ set.printed⟩
  | .record time r =>
    let logging := w.logging.use r.logger
    let (printed, disk) := logging.emit time r w.disk
    ⟨logging, disk, w.console ++ printed⟩

/-- The key under which an event opens a log file. -/
def opens? (w : World) : Event → Option Key
  | .setup _ _ path => Logging.opens? w.disk path
  | .record .. => none

/-- The disk, with the log file emptied that an event opens. -/
def emptied (w : World) (e : Event) : Disk := Logging.emptied w.disk (w.opens? e)

end World

variable {w : World} {e : Event} {k : Key}

/-- What a set-up leaves: the log file that it opened, and the line of its record, which is printed
and added to that file, unless nothing is. -/
theorem setUp_spec (w : World) (time : String) (level : LevelArgument) (path : Option Path) :
    (w.setUp time level path).logging.IsSound ∧
    (w.setUp time level path).logging.file? = Logging.opens? w.disk path ∧
    ((w.setUp time level path).printed = [] ∧
        (w.setUp time level path).disk = w.emptied (.setup time level path) ∨
      (w.setUp time level path).printed = (Event.setup time level path).line ∧
        (w.setUp time level path).disk = Logging.addLine (w.emptied (.setup time level path))
          (Event.setup time level path).line (Logging.opens? w.disk path)) := by
  obtain ⟨n, hlevel⟩ := level.exists_level
  have hlogging : (w.setUp time level path).logging = _ :=
    Logging.logging_setup hlevel w.logging time path w.disk
  have hsound := Logging.isSound_reset w.logging n (Logging.opens? w.disk path)
  rw [hlogging]
  refine ⟨hsound, Logging.file?_reset _ _ _, ?_⟩
  by_cases hfails : Logging.Fails w.disk path
  · obtain ⟨fault, hsetup⟩ := Logging.setup_of_fails hlevel hfails w.logging time
    have hemptied : w.emptied (.setup time level path) = w.disk := by
      show Logging.emptied w.disk (Logging.opens? w.disk path) = w.disk
      rw [hfails.2]
      rfl
    rw [World.setUp, hsetup, hemptied]
    exact .inl ⟨rfl, rfl⟩
  · have hsetup := Logging.setup_of_not_fails hlevel hfails w.logging time
    have hemit := Logging.emit_cases hsound time Logging.initialized
      (Logging.emptied w.disk (Logging.opens? w.disk path))
    rw [World.setUp, hsetup]
    rcases hemit with hemit | hemit
    · exact .inl ⟨congrArg Prod.fst hemit, congrArg Prod.snd hemit⟩
    · rw [Logging.file?_reset] at hemit
      exact .inr ⟨congrArg Prod.fst hemit, congrArg Prod.snd hemit⟩

/-- A set-up that names a log file and goes through has opened it. -/
theorem exists_opens {time : String} {level : LevelArgument} {p : Path}
    (h : (w.setUp time level (some p)).outcome = .ok ()) : ∃ k,
      w.opens? (.setup time level (some p)) = some k ∧ w.disk.locateTarget p.collapse = .ok k := by
  obtain ⟨n, hlevel⟩ := level.exists_level
  by_cases hfails : Logging.Fails w.disk (some p)
  · obtain ⟨fault, hsetup⟩ := Logging.setup_of_fails hlevel hfails w.logging time
    rw [World.setUp, hsetup] at h
    simp at h
  · have hopened : Logging.opens? w.disk (some p) ≠ none := fun hnone => hfails ⟨nofun, hnone⟩
    obtain ⟨k, hk⟩ := Option.ne_none_iff_exists'.1 hopened
    obtain ⟨p', hp, -, hlocated⟩ := Logging.opens?_eq_some_iff.1 hk
    obtain rfl := Option.some.inj hp
    exact ⟨k, hk, hlocated⟩

theorem isSound_step (hw : w.logging.IsSound) (e : Event) : (w.step e).logging.IsSound := by
  cases e with
  | record time r => exact hw
  | setup time level path => exact (setUp_spec w time level path).1

theorem file?_step_setup (he : e.IsSetup) : (w.step e).logging.file? = w.opens? e := by
  cases e with
  | record time r => exact absurd he (by simp [Event.IsSetup])
  | setup time level path => exact (setUp_spec w time level path).2.1

theorem file?_step_record (he : ¬e.IsSetup) : (w.step e).logging.file? = w.logging.file? := by
  cases e with
  | record time r => rfl
  | setup time level path => exact absurd trivial he

/-- **An event** prints nothing, or the line of its record, which it adds to the log file that is
open then. -/
theorem step_cases (hw : w.logging.IsSound) (e : Event) :
    ((w.step e).console = w.console ∧ (w.step e).disk = w.emptied e) ∨
    ((w.step e).console = w.console ++ e.line ∧
      (w.step e).disk = Logging.addLine (w.emptied e) e.line (w.step e).logging.file?) := by
  cases e with
  | record time r =>
    have huse : (w.logging.use r.logger).IsSound := hw
    rcases Logging.emit_cases huse time r w.disk with hemit | hemit
    · refine .inl ⟨?_, congrArg Prod.snd hemit⟩
      show w.console ++ ((w.logging.use r.logger).emit time r w.disk).1 = w.console
      rw [hemit, List.append_nil]
    · refine .inr ⟨?_, congrArg Prod.snd hemit⟩
      show w.console ++ ((w.logging.use r.logger).emit time r w.disk).1 = w.console ++ _
      rw [hemit]
      rfl
  | setup time level path =>
    obtain ⟨-, hfile, hlogged⟩ := setUp_spec w time level path
    rw [file?_step_setup (e := .setup time level path) trivial]
    rcases hlogged with ⟨hprinted, hdisk⟩ | ⟨hprinted, hdisk⟩
    · refine .inl ⟨?_, hdisk⟩
      show w.console ++ (w.setUp time level path).printed = w.console
      rw [hprinted, List.append_nil]
    · refine .inr ⟨?_, hdisk⟩
      show w.console ++ (w.setUp time level path).printed = w.console ++ _
      rw [hprinted]

/-- Only a set-up opens a log file, which is not the root of the disk. -/
theorem isSetup_of_opens (h : w.opens? e = some k) : e.IsSetup ∧ k ≠ [] := by
  cases e with
  | record time r => simp [World.opens?] at h
  | setup time level path => exact ⟨trivial, Logging.ne_nil_of_opens h⟩

theorem opens?_of_record (he : ¬e.IsSetup) : w.opens? e = none := by
  cases e with
  | record time r => rfl
  | setup time level path => exact absurd trivial he

/-- A log file that is open is the one that the event opened, or was open before. -/
theorem ne_opens?_of_ne_file? (h : (w.step e).logging.file? ≠ some k) : w.opens? e ≠ some k := by
  by_cases he : e.IsSetup
  · rwa [← file?_step_setup he]
  · rw [opens?_of_record he]
    nofun

/-- **No other file is written** than the log file that is open after the event. -/
theorem content?_step_of_ne (hw : w.logging.IsSound) (h : (w.step e).logging.file? ≠ some k) :
    (w.step e).disk.content? k = w.disk.content? k := by
  have hemptied : (w.emptied e).content? k = w.disk.content? k :=
    Logging.content?_emptied_of_ne (ne_opens?_of_ne_file? h) w.disk
  rcases step_cases hw e with ⟨-, hdisk⟩ | ⟨-, hdisk⟩
  · rw [hdisk, hemptied]
  · rw [hdisk, Logging.content?_addLine_of_ne h, hemptied]

/-- **What is printed is added to the log file** that is open after the event. -/
theorem exists_printed {t : Text} (hw : w.logging.IsSound)
    (hfile : (w.step e).logging.file? = some k)
    (hbefore : (w.emptied e).content? k = some (.text t)) :
    ∃ u, (w.step e).console = w.console ++ u ∧
      (w.step e).disk.content? k = some (.text (t ++ u)) := by
  rcases step_cases hw e with ⟨hconsole, hdisk⟩ | ⟨hconsole, hdisk⟩
  · refine ⟨[], ?_, ?_⟩
    · rw [hconsole, List.append_nil]
    · rw [hdisk, hbefore, List.append_nil]
  · refine ⟨e.line, hconsole, ?_⟩
    rw [hdisk, hfile, Logging.content?_addLine hbefore]

/-! ### Runs -/

/-- The world after the first `n` events; nothing is set up at first. -/
def worldAfter (d : Disk) (es : List Event) (n : ℕ) : World :=
  stateAfter World.step ⟨Logging.quiet, d, []⟩ es n

variable {d : Disk} {es : List Event} {m n : ℕ}

theorem worldAfter_succ (h : es[n]? = some e) :
    worldAfter d es (n + 1) = (worldAfter d es n).step e := stateAfter_succ h

theorem worldAfter_succ_none (h : es[n]? = none) :
    worldAfter d es (n + 1) = worldAfter d es n := stateAfter_succ_none h

theorem isSound_run (d : Disk) (es : List Event) (n : ℕ) :
    (worldAfter d es n).logging.IsSound := by
  refine stateAfter_induction (P := fun w : World => w.logging.IsSound) (.inl rfl)
    (fun n e _ hw => ?_) n
  exact isSound_step hw e

/-- A stretch of the run that ends with an event. -/
theorem drop_take_succ (hmn : m ≤ n) (he : es[n]? = some e) :
    (es.take (n + 1)).drop m = (es.take n).drop m ++ [e] := by
  have hlength : m ≤ (es.take n).length := by
    have hlt : n < es.length := (List.getElem?_eq_some_iff.1 he).1
    rw [List.length_take]
    omega
  rw [List.take_add_one, he, Option.toList_some, List.drop_append_of_le_length hlength]

/-- **The console has the lines** of some of the events, one line for each, in order. -/
theorem exists_console_lines (d : Disk) (es : List Event) (hmn : m ≤ n) :
    ∃ printed : List Event, printed.Sublist ((es.take n).drop m) ∧
      (worldAfter d es n).console = (worldAfter d es m).console ++ printed.flatMap Event.line := by
  induction n, hmn using Nat.le_induction with
  | base => exact ⟨[], List.nil_sublist _, by simp⟩
  | succ n hmn ih =>
    obtain ⟨printed, hsublist, hconsole⟩ := ih
    cases he : es[n]? with
    | none =>
      have htake : es.take (n + 1) = es.take n := by
        rw [List.take_add_one, he, Option.toList_none, List.append_nil]
      rw [worldAfter_succ_none he, htake]
      exact ⟨printed, hsublist, hconsole⟩
    | some e =>
      rw [worldAfter_succ he, drop_take_succ hmn he]
      rcases step_cases (isSound_run d es n) e with ⟨hsame, -⟩ | ⟨hmore, -⟩
      · exact ⟨printed, hsublist.trans (List.sublist_append_left _ _), hsame.trans hconsole⟩
      · refine ⟨printed ++ [e], hsublist.append_right [e], ?_⟩
        rw [hmore, hconsole, List.flatMap_append, List.flatMap_singleton, List.append_assoc]

/-- No event of a stretch of the run is a set-up. -/
def NoSetup (es : List Event) (m n : ℕ) : Prop :=
  ∀ i e, m ≤ i → i < n → es[i]? = some e → ¬e.IsSetup

theorem noSetup_of_record {time : String} {r : LogRecord} (he : es[n]? = some (.record time r)) :
    NoSetup es n (n + 1) := by
  intro i e hi hlt he'
  obtain rfl : i = n := by omega
  obtain rfl := Option.some.inj (he.symm.trans he')
  exact id

/-- **The log file of the last set-up** has what was printed since then. -/
theorem content?_since (he : es[m]? = some e) (hopens : (worldAfter d es m).opens? e = some k)
    (hmn : m < n) (hlast : NoSetup es (m + 1) n) :
    (worldAfter d es n).logging.file? = some k ∧ ∃ t,
      (worldAfter d es n).console = (worldAfter d es m).console ++ t ∧
      (worldAfter d es n).disk.content? k = some (.text t) := by
  induction n, hmn using Nat.le_induction with
  | base =>
    obtain ⟨hsetup, hne⟩ := isSetup_of_opens hopens
    have hfile : ((worldAfter d es m).step e).logging.file? = some k := by
      rw [file?_step_setup hsetup, hopens]
    have hemptied : ((worldAfter d es m).emptied e).content? k = some (.text []) := by
      unfold World.emptied
      rw [hopens, Logging.content?_emptied hne]
    rw [worldAfter_succ he]
    exact ⟨hfile, exists_printed (isSound_run d es m) hfile hemptied⟩
  | succ n hmn ih =>
    obtain ⟨hfile, t, hconsole, hcontent⟩ := ih fun i e hi hin => hlast i e hi (by omega)
    cases he' : es[n]? with
    | none =>
      rw [worldAfter_succ_none he']
      exact ⟨hfile, t, hconsole, hcontent⟩
    | some e' =>
      have hrecord : ¬e'.IsSetup := hlast n e' hmn (by omega) he'
      have hfile' : ((worldAfter d es n).step e').logging.file? = some k := by
        rw [file?_step_record hrecord, hfile]
      have hemptied : ((worldAfter d es n).emptied e').content? k = some (.text t) := by
        unfold World.emptied
        rw [opens?_of_record hrecord]
        exact hcontent
      obtain ⟨u, hmore, hadded⟩ := exists_printed (isSound_run d es n) hfile' hemptied
      rw [worldAfter_succ he']
      refine ⟨hfile', t ++ u, ?_, hadded⟩
      rw [hmore, hconsole, List.append_assoc]

/-- **A file that is not opened any more** is not changed after the next set-up. -/
theorem content?_unopened (he : es[m]? = some e) (hsetup : e.IsSetup) (hmn : m < n)
    (hunopened : ∀ i e, m ≤ i → i < n → es[i]? = some e → (worldAfter d es i).opens? e ≠ some k) :
    (worldAfter d es n).logging.file? ≠ some k ∧
      (worldAfter d es n).disk.content? k = (worldAfter d es m).disk.content? k := by
  induction n, hmn using Nat.le_induction with
  | base =>
    have hfile : ((worldAfter d es m).step e).logging.file? ≠ some k := by
      rw [file?_step_setup hsetup]
      exact hunopened m e le_rfl (Nat.lt_succ_self m) he
    rw [worldAfter_succ he]
    exact ⟨hfile, content?_step_of_ne (isSound_run d es m) hfile⟩
  | succ n hmn ih =>
    obtain ⟨hfile, hcontent⟩ := ih fun i e hi hin => hunopened i e hi (by omega)
    cases he' : es[n]? with
    | none =>
      rw [worldAfter_succ_none he']
      exact ⟨hfile, hcontent⟩
    | some e' =>
      have hfile' : ((worldAfter d es n).step e').logging.file? ≠ some k := by
        by_cases hsetup' : e'.IsSetup
        · rw [file?_step_setup hsetup']
          exact hunopened n e' (by omega) (by omega) he'
        · rwa [file?_step_record hsetup']
      rw [worldAfter_succ he', content?_step_of_ne (isSound_run d es n) hfile']
      exact ⟨hfile', hcontent⟩

/-- **The console and the log file have the same lines.** Logging is set up any number of times, with
any levels and files, and records are logged in between. Each event prints at most the one line of
its record; since the last set-up, if it opened a log file, that file has what was printed; and no
other file is changed until a set-up opens it. -/
theorem lines_in_both_sinks (d : Disk) (es : List Event) :
    (∀ m n, m ≤ n → ∃ printed : List Event, printed.Sublist ((es.take n).drop m) ∧
      (worldAfter d es n).console = (worldAfter d es m).console ++ printed.flatMap Event.line) ∧
    (∀ m n time level p, es[m]? = some (.setup time level (some p)) →
      ((worldAfter d es m).setUp time level (some p)).outcome = .ok () → m < n →
      NoSetup es (m + 1) n → ∃ k t, (worldAfter d es m).disk.locateTarget p.collapse = .ok k ∧
        (worldAfter d es n).console = (worldAfter d es m).console ++ t ∧
        (worldAfter d es n).disk.content? k = some (.text t)) ∧
    ∀ m n k e, es[m]? = some e → e.IsSetup → m < n →
      (∀ i e, m ≤ i → i < n → es[i]? = some e → (worldAfter d es i).opens? e ≠ some k) →
      (worldAfter d es n).disk.content? k = (worldAfter d es m).disk.content? k := by
  refine ⟨fun m n hmn => exists_console_lines d es hmn, ?_, ?_⟩
  · intro m n time level p he houtcome hmn hlast
    obtain ⟨k, hopens, hlocated⟩ := exists_opens houtcome
    obtain ⟨-, t, hconsole, hcontent⟩ := content?_since he hopens hmn hlast
    exact ⟨k, t, hlocated, hconsole, hcontent⟩
  · intro m n k e he hsetup hmn hunopened
    exact (content?_unopened he hsetup hmn hunopened).2

/-- A disk with a directory. -/
def place : Disk := { nodes := [(["logs".toList], .directory)] }

def runLog : Path := ⟨[], ["run.log".toList]⟩

/-- A log file is opened; then a directory is named as one; then the file is named again. -/
def renamedLog : List Event :=
  [.setup "12:00:00" (.number Level.info) (some runLog),
    .record "12:00:01" ⟨Logger.store, Level.info, "Set x", none⟩,
    .setup "12:00:02" (.name (Text.toUtf16 "debug".toList)) (some ⟨[], ["logs".toList]⟩),
    .record "12:00:03" ⟨Logger.store, Level.debug, "Get x", none⟩,
    .setup "12:00:04" (.number Level.debug) (some runLog),
    .record "12:00:05" ⟨Logger.root, Level.debug, "Get y", none⟩]

/-- The file has the lines of the first two events until it is named again. -/
theorem lines_in_both_sinks_renamed :
    ((worldAfter place renamedLog 2).console =
        ("12:00:00 - swequations - INFO - Logging initialized.\n" ++
          "12:00:01 - swequations.store - INFO - Set x\n").toList ∧
      (worldAfter place renamedLog 4).disk.content? ["run.log".toList] =
        some (.text (worldAfter place renamedLog 2).console)) ∧
    ∃ t, (worldAfter place renamedLog 6).console = (worldAfter place renamedLog 4).console ++ t ∧
      (worldAfter place renamedLog 6).disk.content? ["run.log".toList] = some (.text t) := by
  obtain ⟨-, hsince, hunopened⟩ := lines_in_both_sinks place renamedLog
  refine ⟨⟨by decide, ?_⟩, ?_⟩
  · have hlast : NoSetup renamedLog 1 2 := noSetup_of_record rfl
    obtain ⟨k, t, hlocated, hconsole, hcontent⟩ := hsince 0 2 _ _ _ rfl rfl (by omega) hlast
    obtain rfl : ["run.log".toList] = k := Except.ok.inj hlocated
    have hkept := hunopened 2 4 ["run.log".toList] _ rfl trivial (by omega) fun i e hi hlt he => by
      obtain rfl | rfl : i = 2 ∨ i = 3 := by omega
      · -- a directory is named
        obtain rfl := Option.some.inj he
        have hfails : Logging.opens? (worldAfter place renamedLog 2).disk
            (some ⟨[], ["logs".toList]⟩) = none := rfl
        exact ne_of_eq_of_ne hfails nofun
      · obtain rfl := Option.some.inj he
        nofun
    rw [hkept, hcontent, hconsole]
    rfl
  · have hlast : NoSetup renamedLog 5 6 := noSetup_of_record rfl
    obtain ⟨k, t, hlocated, hconsole, hcontent⟩ := hsince 4 6 _ _ _ rfl rfl (by omega) hlast
    obtain rfl : ["run.log".toList] = k := Except.ok.inj hlocated
    exact ⟨t, hconsole, hcontent⟩

end LogSinks

end EquationSheet
