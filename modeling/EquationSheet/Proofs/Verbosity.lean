import EquationSheet.Proofs.LogSinks

/-!
# Levels and what they let through

After a set-up the level is asked for twice, by the logger and by the sinks. A sink at level zero
takes everything, but a logger at level zero has no level of its own and defers to the general one.
So a lower level lets through what a higher one does, and only level zero does not.

* `prints_iff`: the records that are printed after a set-up.
* `isSetUp_worldSince`: what a history, a set-up and the records since then leave.
* `prints_at_lower_level`: **a record is printed after a set-up at a lower level too**, unless this
  level is zero and the record is below a warning.
-/

namespace EquationSheet

open Text

theorem LogRecord.line_ne_nil (time : String) (r : LogRecord) : (r.line time).toList ≠ [] := by
  unfold LogRecord.line
  cases r.fault with
  | none => simp
  | some name => simp

namespace Logging

variable {l : Logging} {level : ℤ} {inUse : List Text} {r : LogRecord}

/-- A set-up at the level left its sinks, and these loggers are in use. -/
def IsSetUp (l : Logging) (level : ℤ) (inUse : List Text) : Prop :=
  ∃ file, l = { level, handlers := sinks level file, inUse }

theorem IsSetUp.isSound (h : l.IsSetUp level inUse) : l.IsSound := by
  obtain ⟨file, rfl⟩ := h
  exact isSound_reset ⟨level, [], inUse⟩ level file

theorem IsSetUp.handlers_ne_nil (h : l.IsSetUp level inUse) : l.handlers ≠ [] := by
  obtain ⟨file, rfl⟩ := h
  exact List.cons_ne_nil _ _

theorem IsSetUp.level_eq (h : l.IsSetUp level inUse) : l.level = level := by
  obtain ⟨file, rfl⟩ := h
  rfl

theorem IsSetUp.use (h : l.IsSetUp level inUse) (logger : Text) :
    (l.use logger).IsSetUp level (logger :: inUse) := by
  obtain ⟨file, rfl⟩ := h
  exact ⟨file, rfl⟩

/-- What is passed on depends on the loggers in use and on the level of the record. -/
theorem IsSetUp.takes_iff (h : l.IsSetUp level inUse) : l.takes r = true ↔
    reachesRoot inUse r.logger.length r.logger = true ∧ 0 < r.level ∧ l.threshold ≤ r.level := by
  obtain ⟨file, rfl⟩ := h
  unfold takes passesOn isEnabled
  simp only [Bool.and_eq_true, decide_eq_true_eq]

/-- **A lower level lets through what a higher one does**, unless it is zero: then only what is at
least a warning. -/
theorem threshold_le_iff {lower higher : Logging} (hlevel : lower.level ≤ higher.level) {n : ℤ}
    (hpositive : 0 < n) (hn : higher.threshold ≤ n) :
    lower.threshold ≤ n ↔ ¬(lower.level = 0 ∧ n < Level.warning) := by
  by_cases hzero : lower.level = 0
  · have hthreshold : lower.threshold = Level.warning := if_pos hzero
    rw [hthreshold]
    omega
  · have hthreshold : lower.threshold = lower.level := if_neg hzero
    -- a higher level of zero is no obstacle, as the record is above zero anyway
    have hlower : lower.level ≤ n := by
      unfold threshold at hn
      split at hn <;> omega
    rw [hthreshold]
    exact iff_of_true hlower fun h => hzero h.1

end Logging

namespace LogSinks

variable {w : World} {level : ℤ} {inUse : List Text} {time : String} {r : LogRecord}

/-- The record is printed on the console if it is logged now. -/
def World.Prints (w : World) (time : String) (r : LogRecord) : Prop :=
  (w.step (.record time r)).console = w.console ++ (Event.record time r).line

instance (w : World) (time : String) (r : LogRecord) : Decidable (w.Prints time r) :=
  inferInstanceAs (Decidable (_ = _))

/-- **The records that are printed** after a set-up. -/
theorem prints_iff (h : w.logging.IsSetUp level inUse) : w.Prints time r ↔
    Logging.reachesRoot (r.logger :: inUse) r.logger.length r.logger = true ∧
      0 < r.level ∧ w.logging.threshold ≤ r.level := by
  have huse := h.use r.logger
  have htakes : (w.logging.use r.logger).takes r = true ↔ _ := huse.takes_iff
  show w.console ++ ((w.logging.use r.logger).emit time r w.disk).1 =
    w.console ++ (r.line time).toList ↔ _
  rw [List.append_cancel_left_eq, Logging.emit_eq huse.isSound]
  refine Iff.trans ?_ htakes
  constructor
  · intro hprinted
    by_contra hdropped
    rw [if_neg fun h => hdropped h.2] at hprinted
    exact r.line_ne_nil time hprinted.symm
  · intro htaken
    rw [if_pos ⟨huse.handlers_ne_nil, htaken⟩]

/-! ### A history, a set-up and the records since -/

/-- The events in which records are logged. -/
def logged (records : List (String × LogRecord)) : List Event :=
  records.map fun entry => .record entry.1 entry.2

/-- Logging is set up at a level after a history, and records are logged since. -/
def worldSince (d : Disk) (history : List Event) (time : String) (level : ℤ) (path : Option Path)
    (records : List (String × LogRecord)) : World :=
  (logged records).foldl World.step
    ((worldAfter d history history.length).step (.setup time (.number level) path))

/-- A set-up leaves the loggers in use as they are. -/
theorem isSetUp_step_setup (w : World) (time : String) (level : ℤ) (path : Option Path) :
    (w.step (.setup time (.number level) path)).logging.IsSetUp level w.logging.inUse :=
  ⟨Logging.opens? w.disk path, Logging.logging_setup rfl w.logging time path w.disk⟩

/-- A record puts its logger in use. -/
theorem isSetUp_step_record (h : w.logging.IsSetUp level inUse) (time : String) (r : LogRecord) :
    (w.step (.record time r)).logging.IsSetUp level (r.logger :: inUse) := h.use r.logger

/-- Records put their loggers in use and leave the level and the sinks alone. -/
theorem isSetUp_logged (h : w.logging.IsSetUp level inUse) (records : List (String × LogRecord)) :
    ((logged records).foldl World.step w).logging.IsSetUp level
      ((records.map fun entry => entry.2.logger).reverse ++ inUse) := by
  induction records generalizing w inUse with
  | nil => exact h
  | cons entry records ih =>
    have hfirst := isSetUp_step_record h entry.1 entry.2
    rw [List.map_cons, List.reverse_cons, List.append_assoc]
    exact ih hfirst

/-- **The loggers in use do not depend on the set-up**, its level or its log file. -/
theorem isSetUp_worldSince (d : Disk) (history : List Event) (time : String) (level : ℤ)
    (path : Option Path) (records : List (String × LogRecord)) :
    (worldSince d history time level path records).logging.IsSetUp level
      ((records.map fun entry => entry.2.logger).reverse ++
        (worldAfter d history history.length).logging.inUse) :=
  isSetUp_logged (isSetUp_step_setup _ time level path) records

/-- **A record is printed after a set-up at a lower level too**, unless this level is zero and the
record is below a warning. Both set-ups follow one history, each with a log file of its own or none,
and the same records have been logged since. -/
theorem prints_at_lower_level (d : Disk) (history : List Event) {lower higher : ℤ}
    (hlevel : lower ≤ higher) (time₁ time₂ : String) (path₁ path₂ : Option Path)
    (records : List (String × LogRecord)) {now : String} {r : LogRecord}
    (hprinted : (worldSince d history time₂ higher path₂ records).Prints now r) :
    (worldSince d history time₁ lower path₁ records).Prints now r ↔
      ¬(lower = 0 ∧ r.level < Level.warning) := by
  have hlower := isSetUp_worldSince d history time₁ lower path₁ records
  have hhigher := isSetUp_worldSince d history time₂ higher path₂ records
  obtain ⟨hreaches, hpositive, hthreshold⟩ := (prints_iff hhigher).1 hprinted
  -- the same loggers are in use after both set-ups, so the levels decide
  have hlevels := Logging.threshold_le_iff
    (by rwa [hlower.level_eq, hhigher.level_eq]) hpositive hthreshold
  rw [hlower.level_eq] at hlevels
  rw [prints_iff hlower, hlevels]
  exact ⟨fun h => h.2.2, fun h => ⟨hreaches, hpositive, h⟩⟩

/-- A warning of the table. -/
def unread : LogRecord := ⟨Logger.table, Level.warning, "Cannot read y", none⟩

/-- The same history is followed by a set-up at zero that opens a log file, and by one at the level
of debugging whose log file cannot be opened; both print a warning. -/
theorem prints_at_lower_level_renamed :
    (0 : ℤ) ≤ Level.debug ∧
    (worldSince place renamedLog "12:00:06" Level.debug (some ⟨[], ["logs".toList]⟩)
      [("12:00:07", unread)]).Prints "12:00:08" unread ∧
    (worldSince place renamedLog "12:00:06" 0 (some runLog) [("12:00:07", unread)]).Prints
      "12:00:08" unread := by
  have hlevel : (0 : ℤ) ≤ Level.debug := by decide
  have hprinted : (worldSince place renamedLog "12:00:06" Level.debug
      (some ⟨[], ["logs".toList]⟩) [("12:00:07", unread)]).Prints "12:00:08" unread :=
    (prints_iff (isSetUp_worldSince place renamedLog _ _ _ _)).2 (by decide +kernel)
  refine ⟨hlevel, hprinted, ?_⟩
  exact (prints_at_lower_level place renamedLog hlevel "12:00:06" "12:00:06" (some runLog) _ _
    hprinted).2 (by decide)

/-- **Level zero is no lowest level.** What is printed after a set-up at the level of information is
not printed after one at level zero. -/
theorem information_dropped_at_zero :
    (0 : ℤ) ≤ Level.info ∧
    (worldSince place [] "12:00:00" Level.info none []).Prints "12:00:01"
      ⟨Logger.store, Level.info, "Set x", none⟩ ∧
    ¬(worldSince place [] "12:00:00" 0 none []).Prints "12:00:01"
      ⟨Logger.store, Level.info, "Set x", none⟩ := by decide

end LogSinks

end EquationSheet
