import EquationSheet.Proofs.Handles
import EquationSheet.Proofs.Traces

/-!
# Sheets shared by many handles

Handles on sheets are opened, written and closed in any order, any number of them on one file.
Opening may be refused, a write may fail before it touches the file, and giving back a lock may
fail. The program does not run from a bundle, and nothing else writes the files.

* `Ok`: every writer owns the lock of its file and has the slots that the file has now.
* `step_cases`: an event leaves all files as they are, or is the accepted set of a writer.
* `step_ok`, `worldAfter_ok`: one event, and so every run, preserves `Ok`.
* `single_writer`: **a file has one writer, which writes through**, and no update is lost.
-/

namespace EquationSheet.Sharing

/-- What happens to the handles, which are numbered in the order in which they are opened. -/
inductive Event
  | opens (p : Path) (denial : Denial)
  | sets (i : ℕ) (name : Text) (v : { v : Scalar // v.IsNumeric }) (fails : Bool)
  | closes (i : ℕ) (unlockFails : Bool)

/-- The disk with its journal, the handles opened so far, and the rewrites that were accepted, each
with its file, the oldest first. -/
structure World where
  host : Host
  handles : List SheetFile := []
  log : List (Key × Store.Rewrite) := []

/-- The handle, with writes that fail before they touch the file, or with none that fail. -/
def prepared (s : SheetFile) (fails : Bool) : SheetFile :=
  { s with lock := { s.lock with writeFault := if fails then some .start else none } }

/-- The file that a handle has open. -/
def key? (s : SheetFile) : Option Key := s.lock.file.map OpenFile.key

namespace World

/-- The host under the conditions of an event. -/
def under (w : World) (c : Conditions) : Host := { w.host with conditions := c }

def step (w : World) : Event → World
  | .opens p denial =>
    let out := SheetFile.load p (w.under { denial := denial })
    match out.1 with
    | .ok s => { w with host := out.2, handles := w.handles ++ [s] }
    | .error _ => { w with host := out.2 }
  | .sets i name v fails =>
    match w.handles[i]? with
    | none => w
    | some s =>
      let out := Store.setOne (.file (prepared s fails)) name v w.host
      match out.1 with
      | .ok (some r, .file s') =>
        ⟨out.2, w.handles.set i s', w.log ++ (key? s).toList.map (·, r)⟩
      | _ => { w with host := out.2 }
  | .closes i unlockFails =>
    match w.handles[i]? with
    | none => w
    | some s =>
      let out := s.close (w.under { unlockFails := unlockFails })
      { w with host := out.2, handles := w.handles.set i out.1 }

/-- The rewrite that the caller of a set is told of; nothing where it did not go through. -/
def answer (w : World) : Event → Option Store.Rewrite
  | .sets i name v fails =>
    match w.handles[i]? with
    | none => none
    | some s =>
      match (Store.setOne (.file (prepared s fails)) name v w.host).1 with
      | .ok (r, _) => r
      | .error _ => none
  | _ => none

def content? (w : World) (k : Key) : Option Content := w.host.disk.content? k

/-- The handle is open on the file and is not read-only. -/
def Writes (w : World) (i : ℕ) (s : SheetFile) (k : Key) : Prop :=
  w.handles[i]? = some s ∧ key? s = some k ∧ s.readonly = false

/-- The rewrites of one file. -/
def updates (w : World) (k : Key) : List Store.Rewrite :=
  (w.log.filter (·.1 = k)).map Prod.snd

end World

/-- The slots after rewrites, one after the other. -/
def replay (slots : List Text) (rs : List Store.Rewrite) : List Text :=
  rs.foldl (fun slots r => slots.set r.index r.after) slots

/-- A disk with any files, of which none is open. -/
def World.init (nodes : List (Key × Node)) : World := ⟨{ disk := { nodes := nodes } }, [], []⟩

section Trace

variable (nodes : List (Key × Node)) (es : List Event)

/-- The world after the first `n` events. -/
def worldAfter (n : ℕ) : World := stateAfter World.step (World.init nodes) es n

theorem worldAfter_zero : worldAfter nodes es 0 = World.init nodes := stateAfter_zero

variable {es}

theorem worldAfter_succ {n : ℕ} {e : Event} (h : es[n]? = some e) :
    worldAfter nodes es (n + 1) = (worldAfter nodes es n).step e := stateAfter_succ h

theorem worldAfter_succ_none {n : ℕ} (h : es[n]? = none) :
    worldAfter nodes es (n + 1) = worldAfter nodes es n := stateAfter_succ_none h

end Trace

/-! ### The invariant -/

/-- The handle holds the file open. -/
def IsOpen (handles : List SheetFile) (i : ℕ) (s : SheetFile) (f : OpenFile) : Prop :=
  handles[i]? = some s ∧ s.lock.file = some f

/-- Open files have numbers of their own and nothing left to write, and a writer owns the lock of its
file and has its current slots. -/
structure Ok (handles : List SheetFile) (d : Disk) : Prop where
  written : d.unwritten = []
  unspent : ∀ (i : ℕ) (s : SheetFile), handles[i]? = some s → s.lock.spent = false
  ids : ∀ i s f, IsOpen handles i s f → f.id < d.nextId
  apart : ∀ i j s s' f f', IsOpen handles i s f → IsOpen handles j s' f' → f.id = f'.id → i = j
  owns : ∀ i s f, IsOpen handles i s f → s.readonly = false → d.owners.lookup f.key = some f.id
  current : ∀ i s f, IsOpen handles i s f → s.readonly = false →
    ∃ t, d.content? f.key = some (.text t) ∧ s.slots = Sheet.split t

variable {handles : List SheetFile} {d d' : Disk} {w : World} {i j : ℕ} {s s' : SheetFile}
  {f f' : OpenFile} {k : Key}

theorem ok_nil (hd : d.unwritten = []) : Ok [] d := by
  constructor <;> simp [IsOpen, hd]

/-- Closing a handle goes through. -/
theorem Ok.settled (h : Ok handles d) (hs : handles[i]? = some s) : s.lock.Settled d :=
  ⟨h.unspent i s hs, fun f _ => Disk.unwritten?_of_nil h.written f⟩

/-- Two writers of one file are one handle. -/
theorem Ok.unique (h : Ok handles d) (hf : IsOpen handles i s f) (hs : s.readonly = false)
    (hf' : IsOpen handles j s' f') (hs' : s'.readonly = false) (hk : f.key = f'.key) : i = j := by
  have howns := h.owns i s f hf hs
  rw [hk, h.owns j s' f' hf' hs'] at howns
  exact h.apart i j s s' f f' hf hf' (Option.some.inj howns).symm

theorem Ok.keeps (h : Ok handles d) (hd : d.Keeps d') : Ok handles d' where
  written := List.subset_nil.1 (h.written ▸ hd.unwritten)
  unspent := h.unspent
  ids i s f hf := Nat.lt_of_lt_of_le (h.ids i s f hf) hd.nextId
  apart := h.apart
  owns i s f hf hs := hd.owners _ _ (h.ids i s f hf) (h.owns i s f hf hs)
  current i s f hf hs := by
    obtain ⟨t, ht, hslots⟩ := h.current i s f hf hs
    exact ⟨t, by rw [Disk.content?_of_nodes hd.nodes, ht], hslots⟩

theorem getElem?_append (hi : (handles ++ [s])[i]? = some s') :
    handles[i]? = some s' ∨ i = handles.length ∧ s' = s := by
  rcases Nat.lt_trichotomy i handles.length with hlt | heq | hgt
  · rw [List.getElem?_append_left hlt] at hi
    exact .inl hi
  · subst heq
    exact .inr ⟨rfl, by simpa using hi.symm⟩
  · rw [List.getElem?_eq_none (by simp; omega)] at hi
    exact absurd hi (by simp)

theorem getElem?_set (hi : (handles.set j s)[i]? = some s') :
    handles[i]? = some s' ∧ i ≠ j ∨ i = j ∧ s' = s := by
  rw [List.getElem?_set] at hi
  split at hi
  · rename_i heq
    split at hi
    · exact .inr ⟨heq.symm, (Option.some.inj hi).symm⟩
    · simp at hi
  · rename_i hne
    exact .inl ⟨hi, Ne.symm hne⟩

theorem isOpen_append (h : IsOpen (handles ++ [s]) i s' f') :
    IsOpen handles i s' f' ∨ i = handles.length ∧ s' = s :=
  (getElem?_append h.1).imp_left fun hi => ⟨hi, h.2⟩

theorem isOpen_set (h : IsOpen (handles.set j s) i s' f') :
    IsOpen handles i s' f' ∧ i ≠ j ∨ i = j ∧ s' = s :=
  (getElem?_set h.1).imp_left fun hi => ⟨⟨hi.1, h.2⟩, hi.2⟩

/-- A handle that is as open as the one in its place keeps all of them so. -/
theorem Ok.unspent_set (h : Ok handles d) (hs : s.lock.spent = false) {i : ℕ} {s' : SheetFile}
    (hi : (handles.set j s)[i]? = some s') : s'.lock.spent = false := by
  rcases getElem?_set hi with ⟨hi, -⟩ | ⟨-, rfl⟩
  · exact h.unspent i s' hi
  · exact hs

/-- A handle that was opened just now joins the others. -/
theorem Ok.append {p : Path} {t : Text} {h₀ h' : Host} (h : Ok handles h₀.disk)
    (hb : h₀.conditions.bundled = false) (hopened : FileLock.Opened p h₀ f s.lock h')
    (ht : h₀.disk.content? f.key = some (.text t)) (hslots : s.slots = Sheet.split t) :
    Ok (handles ++ [s]) h'.disk := by
  have hold := h.keeps hopened.keeps
  have hfile : ∀ {f'}, s.lock.file = some f' → f' = f := fun hf' =>
    Option.some.inj (hf'.symm.trans hopened.file)
  have hnew : h'.disk.content? f.key = some (.text t) := by
    rw [Disk.content?_of_nodes hopened.keeps.nodes, ht]
  constructor
  · exact hold.written
  · intro i s' hi
    rcases getElem?_append hi with hi | ⟨-, rfl⟩
    · exact h.unspent i s' hi
    · exact hopened.spent
  · intro i s' f' hf
    rcases isOpen_append hf with hf | ⟨-, rfl⟩
    · exact hold.ids i s' f' hf
    · rw [hfile hf.2, hopened.id, hopened.nextId]
      exact Nat.lt_succ_self _
  · intro i j s₁ s₂ f₁ f₂ h₁ h₂ hid
    -- the number of the new file was not given to any file before
    rcases isOpen_append h₁ with h₁' | ⟨rfl, rfl⟩ <;> rcases isOpen_append h₂ with h₂' | ⟨rfl, rfl⟩
    · exact h.apart i j s₁ s₂ f₁ f₂ h₁' h₂' hid
    · have hlt := h.ids i s₁ f₁ h₁'
      rw [hid, hfile h₂.2, hopened.id] at hlt
      exact absurd hlt (Nat.lt_irrefl _)
    · have hlt := h.ids j s₂ f₂ h₂'
      rw [← hid, hfile h₁.2, hopened.id] at hlt
      exact absurd hlt (Nat.lt_irrefl _)
    · rfl
  · intro i s' f' hf hs
    rcases isOpen_append hf with hf | ⟨-, rfl⟩
    · exact hold.owns i s' f' hf hs
    · rw [hfile hf.2]
      exact hopened.owns hb hs
  · intro i s' f' hf hs
    rcases isOpen_append hf with hf | ⟨-, rfl⟩
    · exact hold.current i s' f' hf hs
    · rw [hfile hf.2]
      exact ⟨t, hnew, hslots⟩

/-- A handle that is closed frees its own lock only. -/
theorem Ok.close (h : Ok handles d) (hs : handles[j]? = some s) (hs' : s'.lock.file = none)
    (hspent : s'.lock.spent = false) : Ok (handles.set j s') (s.lock.closeFile d) := by
  have hopen : ∀ {i s₁ f₁}, IsOpen (handles.set j s') i s₁ f₁ → IsOpen handles i s₁ f₁ ∧ i ≠ j := by
    intro i s₁ f₁ hf
    rcases isOpen_set hf with hf | ⟨-, rfl⟩
    · exact hf
    · have hfile := hf.2
      rw [hs'] at hfile
      exact absurd hfile (by simp)
  unfold FileLock.closeFile
  cases hfile : s.lock.file with
  | none =>
    -- it had been closed before
    exact ⟨h.written, fun _ _ => h.unspent_set hspent,
      fun i s₁ f₁ hf => h.ids i s₁ f₁ (hopen hf).1,
      fun i j s₁ s₂ f₁ f₂ h₁ h₂ => h.apart i j s₁ s₂ f₁ f₂ (hopen h₁).1 (hopen h₂).1,
      fun i s₁ f₁ hf => h.owns i s₁ f₁ (hopen hf).1,
      fun i s₁ f₁ hf => h.current i s₁ f₁ (hopen hf).1⟩
  | some f =>
    refine ⟨h.written, fun _ _ => h.unspent_set hspent,
      fun i s₁ f₁ hf => h.ids i s₁ f₁ (hopen hf).1,
      fun i j s₁ s₂ f₁ f₂ h₁ h₂ => h.apart i j s₁ s₂ f₁ f₂ (hopen h₁).1 (hopen h₂).1,
      fun i s₁ f₁ hf hs₁ => ?_, fun i s₁ f₁ hf => h.current i s₁ f₁ (hopen hf).1⟩
    -- the lock of another handle belongs to another open file
    refine Disk.lookup_unlock (h.owns i s₁ f₁ (hopen hf).1 hs₁) fun hid => ?_
    exact (hopen hf).2 (h.apart i j s₁ s f₁ f (hopen hf).1 ⟨hs, hfile⟩ hid)

/-- A writer writes its slots through to its file. -/
theorem Ok.write {slots : List Text} (h : Ok handles d) (hf : IsOpen handles j s f)
    (hs : s.readonly = false) (hlock : s'.lock.file = s.lock.file)
    (hspent : s'.lock.spent = s.lock.spent) (hslots : s'.slots = slots)
    (hclean : ∀ slot ∈ slots, IsClean slot) :
    Ok (handles.set j s') (d.write f.key (.text (Sheet.join slots))) := by
  obtain ⟨t, ht, -⟩ := h.current j s f hf hs
  have hkey : f.key ≠ [] := Disk.ne_nil_of_content? ht
  have hopen : ∀ {i s₁ f₁}, IsOpen (handles.set j s') i s₁ f₁ →
      IsOpen handles i s₁ f₁ ∧ i ≠ j ∨ i = j ∧ s₁ = s' ∧ f₁ = f := by
    intro i s₁ f₁ hf₁
    rcases isOpen_set hf₁ with hf₁ | ⟨rfl, rfl⟩
    · exact .inl hf₁
    · refine .inr ⟨rfl, rfl, ?_⟩
      have hfile := hf₁.2
      rw [hlock, hf.2] at hfile
      exact (Option.some.inj hfile).symm
  constructor
  · exact h.written
  · exact fun _ _ => h.unspent_set (hspent.trans (h.unspent j s hf.1))
  · intro i s₁ f₁ hf₁
    rcases hopen hf₁ with ⟨hf₁, -⟩ | ⟨-, -, rfl⟩
    · exact h.ids i s₁ f₁ hf₁
    · exact h.ids j s f₁ hf
  · intro i i' s₁ s₂ f₁ f₂ h₁ h₂ hid
    rcases hopen h₁ with ⟨h₁', -⟩ | ⟨hi₁, -, rfl⟩ <;> rcases hopen h₂ with ⟨h₂', -⟩ | ⟨hi₂, -, rfl⟩
    · exact h.apart i i' s₁ s₂ f₁ f₂ h₁' h₂' hid
    · exact (h.apart i j s₁ s f₁ f₂ h₁' hf hid).trans hi₂.symm
    · exact hi₁.trans (h.apart j i' s s₂ f₁ f₂ hf h₂' hid)
    · exact hi₁.trans hi₂.symm
  · intro i s₁ f₁ hf₁ hs₁
    rcases hopen hf₁ with ⟨hf₁, -⟩ | ⟨-, -, rfl⟩
    · exact h.owns i s₁ f₁ hf₁ hs₁
    · exact h.owns j s f₁ hf hs
  · intro i s₁ f₁ hf₁ hs₁
    rcases hopen hf₁ with ⟨hf₁, hne⟩ | ⟨-, rfl, rfl⟩
    · -- another writer has another file
      have hother : f₁.key ≠ f.key := fun hk => hne (h.unique hf₁ hs₁ hf hs hk)
      rw [Disk.content?_write hkey, if_neg hother]
      exact h.current i s₁ f₁ hf₁ hs₁
    · refine ⟨Sheet.join slots, by rw [Disk.content?_write hkey, if_pos rfl], ?_⟩
      rw [Sheet.split_join hclean, hslots]

/-! ### One event -/

/-- All files stay as they are. -/
structure Quiet (w w' : World) : Prop where
  nodes : w'.host.disk.nodes = w.host.disk.nodes
  log : w'.log = w.log

/-- The event is a set through the writer of a file. Its rewrite was planned on the slots that the
file has, and the file, alone of all files, gets the slots changed by it. -/
structure Accepted (w w' : World) (e : Event) (k : Key) (r : Store.Rewrite) : Prop where
  event : ∃ i s name v t, e = .sets i name v false ∧ w.Writes i s k ∧
    w.content? k = some (.text t) ∧ Store.plan (Sheet.split t) name v = .ok (some r)
  slots : ∀ t, w.content? k = some (.text t) → ∃ t', w'.content? k = some (.text t') ∧
    Sheet.split t' = (Sheet.split t).set r.index r.after
  others : ∀ k', k' ≠ k → w'.content? k' = w.content? k'
  log : w'.log = w.log ++ [(k, r)]

theorem step_opens (hw : Ok w.handles w.host.disk) (p : Path) (denial : Denial) :
    Quiet w (w.step (.opens p denial)) ∧
      Ok (w.step (.opens p denial)).handles (w.step (.opens p denial)).host.disk := by
  rcases SheetFile.load_cases p (w.under { denial := denial }) with ⟨fault, h', hload, hshut⟩ |
    ⟨s, f, t, h', hload, hopened, ht, hslots⟩
  · simp only [World.step, hload]
    exact ⟨⟨hshut.keeps.nodes, rfl⟩, hw.keeps hshut.keeps⟩
  · simp only [World.step, hload]
    have hunder : Ok w.handles (w.under { denial := denial }).disk := hw
    exact ⟨⟨hopened.keeps.nodes, rfl⟩, hunder.append rfl hopened ht hslots⟩

/-- A handle that was not there before has the slots of its file. -/
theorem slots_of_step {e : Event} (hnew : (w.step e).handles[i]? = some s)
    (hold : w.handles[i]? = none) (hk : key? s = some k) :
    ∃ t, w.content? k = some (.text t) ∧ s.slots = Sheet.split t := by
  have hset : ∀ {j : ℕ} {s' : SheetFile}, (w.handles.set j s')[i]? ≠ some s := by
    intro j s' h
    rw [List.getElem?_eq_none_iff] at hold
    rw [List.getElem?_eq_none (by simpa using hold)] at h
    exact absurd h (by simp)
  have hsame : w.handles[i]? ≠ some s := by rw [hold]; simp
  cases e with
  | opens p denial =>
    rcases SheetFile.load_cases p (w.under { denial := denial }) with ⟨fault, h', hload, -⟩ |
      ⟨s', f, t, h', hload, hopened, ht, hslots⟩
    · simp only [World.step, hload] at hnew
      exact absurd hnew hsame
    · simp only [World.step, hload] at hnew
      obtain rfl : s = s' := by
        have hle : w.handles.length ≤ i := List.getElem?_eq_none_iff.1 hold
        rw [List.getElem?_append_right hle, List.getElem?_singleton] at hnew
        split at hnew
        · exact (Option.some.inj hnew).symm
        · simp at hnew
      simp only [key?, hopened.file, Option.map_some, Option.some.injEq] at hk
      subst hk
      exact ⟨t, ht, hslots⟩
  | sets j name v fails =>
    simp only [World.step] at hnew
    split at hnew
    · exact absurd hnew hsame
    · split at hnew
      · exact absurd hnew hset
      · exact absurd hnew hsame
  | closes j unlockFails =>
    simp only [World.step] at hnew
    split at hnew
    · exact absurd hnew hsame
    · exact absurd hnew hset

theorem step_closes (hw : Ok w.handles w.host.disk) (j : ℕ) (unlockFails : Bool) :
    Quiet w (w.step (.closes j unlockFails)) ∧
      Ok (w.step (.closes j unlockFails)).handles (w.step (.closes j unlockFails)).host.disk := by
  simp only [World.step]
  split
  · exact ⟨⟨rfl, rfl⟩, hw⟩
  · rename_i s hs
    have hsettled : s.lock.Settled (w.under { unlockFails := unlockFails }).disk := hw.settled hs
    have hdisk : (s.close (w.under { unlockFails := unlockFails })).2.disk =
        s.lock.closeFile w.host.disk := SheetFile.close_disk hsettled
    refine ⟨⟨?_, rfl⟩, ?_⟩
    · simp only [hdisk]
      exact s.lock.closeFile_nodes w.host.disk
    · simp only [hdisk]
      exact hw.close hs (SheetFile.close_file hsettled) (SheetFile.close_spent hsettled)

section Sets

variable {name : Text} {v : { v : Scalar // v.IsNumeric }} {fails : Bool} {r : Store.Rewrite}

theorem step_of_accepted (hj : w.handles[j]? = some s)
    (h : (Store.setOne (.file (prepared s fails)) name v w.host).1 = .ok (some r, .file s')) :
    w.step (.sets j name v fails) =
        ⟨(Store.setOne (.file (prepared s fails)) name v w.host).2, w.handles.set j s',
          w.log ++ (key? s).toList.map (·, r)⟩ ∧
      w.answer (.sets j name v fails) = some r := by
  simp only [World.step, World.answer, hj, h, and_self]

theorem step_of_refused (hj : w.handles[j]? = some s) (h : ∀ r source,
      (Store.setOne (.file (prepared s fails)) name v w.host).1 ≠ .ok (some r, source)) :
    w.step (.sets j name v fails) =
        { w with host := (Store.setOne (.file (prepared s fails)) name v w.host).2 } ∧
      w.answer (.sets j name v fails) = none := by
  simp only [World.step, World.answer, hj]
  cases hout : (Store.setOne (.file (prepared s fails)) name v w.host).1 with
  | error fault => exact ⟨rfl, rfl⟩
  | ok result =>
    obtain ⟨r, source⟩ := result
    cases r with
    | none => exact ⟨rfl, rfl⟩
    | some r => exact absurd hout (h r source)

/-- The slots of a file stay clean under the rewrites that are planned on them. -/
theorem isClean_of_mem_set {t : Text} (hplan : Store.plan (Sheet.split t) name v = .ok (some r)) :
    ∀ slot ∈ (Sheet.split t).set r.index r.after, IsClean slot := by
  intro slot hslot
  rcases List.mem_or_eq_of_mem_set hslot with hslot | rfl
  · exact Sheet.isClean_of_mem_split hslot
  · exact (Store.isClean_of_plan v.2 (fun _ => Sheet.isClean_of_mem_split) hplan).2

/-- **A set** is refused and changes nothing, or is accepted through the writer of a file. -/
theorem step_sets (hw : Ok w.handles w.host.disk) (hnone : w.host.conditions.writeFault = none)
    (j : ℕ) (name : Text)
    (v : { v : Scalar // v.IsNumeric }) (fails : Bool) :
    (w.answer (.sets j name v fails) = none ∧ Quiet w (w.step (.sets j name v fails)) ∨
      ∃ k r, w.answer (.sets j name v fails) = some r ∧
        Accepted w (w.step (.sets j name v fails)) (.sets j name v fails) k r) ∧
      Ok (w.step (.sets j name v fails)).handles (w.step (.sets j name v fails)).host.disk := by
  cases hj : w.handles[j]? with
  | none =>
    have hstep : w.step (.sets j name v fails) = w := by simp only [World.step, hj]
    have hanswer : w.answer (.sets j name v fails) = none := by simp only [World.answer, hj]
    rw [hstep]
    exact ⟨.inl ⟨hanswer, rfl, rfl⟩, hw⟩
  | some s =>
    have hstage : (prepared s fails).lock.failingStage w.host = if fails then some .start else none := by
      unfold FileLock.failingStage
      rw [hnone, Option.or_none]
      rfl
    have hfault : (prepared s fails).lock.failingStage w.host = none ∨
        (prepared s fails).lock.failingStage w.host = some .start := by
      rw [hstage]
      cases fails <;> simp
    rcases SheetFile.setOne_cases (prepared s fails) name v w.host hw.written hfault with
      ⟨f, r, hf, hs, hgoes, hplan, hout, hdisk⟩ | ⟨hrefused, hdisk⟩
    · -- the handle is the writer of its file
      have hfails : fails = false := by
        rw [hstage] at hgoes
        simpa using hgoes
      subst hfails
      have hopen : IsOpen w.handles j s f := ⟨hj, hf⟩
      have hfile : key? s = some f.key := by simp [key?, hopen.2]
      obtain ⟨t, ht, hslots⟩ := hw.current j s f hopen hs
      have hkey : f.key ≠ [] := Disk.ne_nil_of_content? ht
      have hprepared : (prepared s false).slots = Sheet.split t := hslots
      rw [hprepared] at hplan hout hdisk
      have hclean := isClean_of_mem_set hplan
      obtain ⟨hstep, hanswer⟩ := step_of_accepted hj hout
      rw [hstep, hanswer]
      simp only [hdisk]
      refine ⟨.inr ⟨f.key, r, rfl, ?_⟩, hw.write hopen hs rfl rfl rfl hclean⟩
      refine ⟨⟨j, s, name, v, t, rfl, ⟨hj, hfile, hs⟩, ht, hplan⟩, ?_, ?_, by simp [hfile]⟩
      · intro t₁ ht₁
        obtain rfl : t₁ = t := by
          have heq := ht₁.symm.trans ht
          simpa using heq
        refine ⟨_, ?_, Sheet.split_join hclean⟩
        simp only [World.content?, hdisk]
        rw [Disk.content?_write hkey, if_pos rfl]
      · intro k' hk'
        simp only [World.content?, hdisk]
        rw [Disk.content?_write hkey, if_neg hk']
    · -- the handle is no writer, the write fails, or there is nothing to rewrite
      obtain ⟨hstep, hanswer⟩ := step_of_refused hj hrefused
      rw [hstep]
      simp only [hdisk]
      exact ⟨.inl ⟨hanswer, by simp only [hdisk], rfl⟩, hw⟩

end Sets

/-- **One event** leaves all files as they are, or is an accepted set. The invariant is preserved. -/
theorem step_cases (hw : Ok w.handles w.host.disk) (hnone : w.host.conditions.writeFault = none)
    (e : Event) :
    (w.answer e = none ∧ Quiet w (w.step e) ∨
      ∃ k r, w.answer e = some r ∧ Accepted w (w.step e) e k r) ∧
    Ok (w.step e).handles (w.step e).host.disk := by
  cases e with
  | opens p denial =>
    obtain ⟨hquiet, hok⟩ := step_opens hw p denial
    exact ⟨.inl ⟨rfl, hquiet⟩, hok⟩
  | sets j name v fails => exact step_sets hw hnone j name v fails
  | closes j unlockFails =>
    obtain ⟨hquiet, hok⟩ := step_closes hw j unlockFails
    exact ⟨.inl ⟨rfl, hquiet⟩, hok⟩

/-- No event leaves a host on which writes fail. -/
theorem writeFault_step (hnone : w.host.conditions.writeFault = none) (e : Event) :
    (w.step e).host.conditions.writeFault = none := by
  cases e with
  | opens p denial =>
    have hload := SheetFile.conditions_load p (w.under { denial := denial })
    simp only [World.step]
    split <;> exact congrArg Conditions.writeFault hload
  | sets j name v fails =>
    simp only [World.step]
    split
    · exact hnone
    · rename_i s _
      have hset := Store.conditions_setOne (.file (prepared s fails)) name v w.host
      split <;> rw [hset, hnone]
  | closes j unlockFails =>
    simp only [World.step]
    split
    · exact hnone
    · rename_i s _
      exact congrArg Conditions.writeFault (s.lock.conditions_tryRelease _)

/-! ### Runs -/

/-- The later world has the file with the rewrites accepted in between. -/
def Leads (w w' : World) (k : Key) : Prop :=
  ∀ t, w.content? k = some (.text t) → ∃ t' rs, w'.content? k = some (.text t') ∧
    w'.updates k = w.updates k ++ rs ∧ Sheet.split t' = replay (Sheet.split t) rs

theorem Leads.refl (w : World) (k : Key) : Leads w w k := fun t ht =>
  ⟨t, [], ht, by simp, rfl⟩

theorem Leads.trans {w₁ w₂ w₃ : World} (h₁ : Leads w₁ w₂ k) (h₂ : Leads w₂ w₃ k) :
    Leads w₁ w₃ k := by
  intro t ht
  obtain ⟨t₂, rs₁, ht₂, hupdates₁, hsplit₁⟩ := h₁ t ht
  obtain ⟨t₃, rs₂, ht₃, hupdates₂, hsplit₂⟩ := h₂ t₂ ht₂
  refine ⟨t₃, rs₁ ++ rs₂, ht₃, ?_, ?_⟩
  · rw [hupdates₂, hupdates₁, List.append_assoc]
  · rw [hsplit₂, hsplit₁]
    simp [replay]

theorem Quiet.leads {w' : World} (h : Quiet w w') (k : Key) : Leads w w' k := by
  intro t ht
  refine ⟨t, [], ?_, ?_, rfl⟩
  · unfold World.content? at ht ⊢
    rw [Disk.content?_of_nodes h.nodes, ht]
  · unfold World.updates
    rw [h.log, List.append_nil]

theorem Accepted.leads {w' : World} {e : Event} {r : Store.Rewrite} (h : Accepted w w' e k r)
    (k' : Key) : Leads w w' k' := by
  intro t ht
  by_cases hk : k' = k
  · subst hk
    obtain ⟨t', ht', hsplit⟩ := h.slots t ht
    refine ⟨t', [r], ht', ?_, hsplit⟩
    simp [World.updates, h.log]
  · refine ⟨t, [], by rw [h.others k' hk, ht], ?_, rfl⟩
    simp [World.updates, h.log, Ne.symm hk]

theorem step_leads (hw : Ok w.handles w.host.disk) (hnone : w.host.conditions.writeFault = none)
    (e : Event) (k : Key) : Leads w (w.step e) k := by
  rcases (step_cases hw hnone e).1 with ⟨-, hquiet⟩ | ⟨k', r, -, haccepted⟩
  · exact hquiet.leads k
  · exact haccepted.leads k

variable (nodes : List (Key × Node)) (es : List Event)

theorem worldAfter_writeFault (n : ℕ) :
    (worldAfter nodes es n).host.conditions.writeFault = none :=
  stateAfter_induction (P := fun w : World => w.host.conditions.writeFault = none) rfl
    (fun _ e _ hnone => writeFault_step hnone e) n

/-- **Every run preserves the invariant.** -/
theorem worldAfter_ok (n : ℕ) :
    Ok (worldAfter nodes es n).handles (worldAfter nodes es n).host.disk := by
  have hfirst : Ok (World.init nodes).handles (World.init nodes).host.disk := ok_nil rfl
  exact stateAfter_induction (P := fun w : World => Ok w.handles w.host.disk) hfirst
    (fun n e _ hw => (step_cases hw (worldAfter_writeFault nodes es n) e).2) n

theorem worldAfter_leads {m n : ℕ} (hmn : m ≤ n) (k : Key) :
    Leads (worldAfter nodes es m) (worldAfter nodes es n) k :=
  stateAfter_le (R := fun w w' : World => Leads w w' k) (Leads.refl · k) Leads.trans
    (fun n e _ => step_leads (worldAfter_ok nodes es n) (worldAfter_writeFault nodes es n) e k)
    hmn

theorem current_of_writes (hw : Ok w.handles w.host.disk) (h : w.Writes i s k) :
    ∃ t, w.content? k = some (.text t) ∧ s.slots = Sheet.split t := by
  obtain ⟨hi, hk, hs⟩ := h
  obtain ⟨f, hf, rfl⟩ := Option.map_eq_some_iff.1 hk
  exact hw.current i s f ⟨hi, hf⟩ hs

theorem unique_of_writes (hw : Ok w.handles w.host.disk) (h : w.Writes i s k)
    (h' : w.Writes j s' k) : i = j := by
  obtain ⟨hi, hk, hs⟩ := h
  obtain ⟨hj, hk', hs'⟩ := h'
  obtain ⟨f, hf, rfl⟩ := Option.map_eq_some_iff.1 hk
  obtain ⟨f', hf', hkey⟩ := Option.map_eq_some_iff.1 hk'
  exact hw.unique ⟨hi, hf⟩ hs ⟨hj, hf'⟩ hs' hkey.symm

/-- **A file has one writer, which writes through.** Start from any disk and let handles be opened,
set and closed in any order. Then at any time

* a file has at most one handle that is open on it and not read-only, and the slots of that handle
  are the slots of the text that the file has;
* the next event tells its caller of a rewrite exactly when it is a set through the writer of a
  file, which gets this rewrite of its current slots and no other file changes; any other event
  changes no file at all;
* the slots of a file are its first slots with all rewrites told of so far, so that none is lost;
* a handle that is opened has the slots of the file, which are the slots that any earlier writer
  had, with the rewrites told of since then: exactly the slots of a writer that was closed, if
  there were none since. -/
theorem single_writer (n : ℕ) :
    (∀ k i j s s', (worldAfter nodes es n).Writes i s k → (worldAfter nodes es n).Writes j s' k →
      i = j) ∧
    (∀ k i s, (worldAfter nodes es n).Writes i s k →
      ∃ t, (worldAfter nodes es n).content? k = some (.text t) ∧ s.slots = Sheet.split t) ∧
    (∀ e, es[n]? = some e →
      (worldAfter nodes es n).answer e = none ∧
        Quiet (worldAfter nodes es n) (worldAfter nodes es (n + 1)) ∨
      ∃ k r, (worldAfter nodes es n).answer e = some r ∧
        Accepted (worldAfter nodes es n) (worldAfter nodes es (n + 1)) e k r) ∧
    (∀ k t₀, (World.init nodes).content? k = some (.text t₀) →
      ∃ t, (worldAfter nodes es n).content? k = some (.text t) ∧
        Sheet.split t = replay (Sheet.split t₀) ((worldAfter nodes es n).updates k)) ∧
    (∀ (k : Key) (i : ℕ) (s : SheetFile), (worldAfter nodes es n).handles[i]? = none →
      (worldAfter nodes es (n + 1)).handles[i]? = some s → key? s = some k →
      (∃ t, (worldAfter nodes es n).content? k = some (.text t) ∧ s.slots = Sheet.split t) ∧
      ∀ m ≤ n, ∀ j s₀, (worldAfter nodes es m).Writes j s₀ k →
        (∃ rs, (worldAfter nodes es n).updates k = (worldAfter nodes es m).updates k ++ rs ∧
          s.slots = replay s₀.slots rs) ∧
        ((worldAfter nodes es n).updates k = (worldAfter nodes es m).updates k →
          s.slots = s₀.slots)) := by
  have hok := worldAfter_ok nodes es
  refine ⟨fun k i j s s' => unique_of_writes (hok n), fun k i s => current_of_writes (hok n),
    fun e he => ?_, fun k t₀ ht₀ => ?_, fun k i s hold hnew hk => ?_⟩
  · rw [worldAfter_succ nodes he]
    exact (step_cases (hok n) (worldAfter_writeFault nodes es n) e).1
  · rw [← worldAfter_zero nodes es] at ht₀
    obtain ⟨t, rs, ht, hupdates, hsplit⟩ := worldAfter_leads nodes es (Nat.zero_le n) k t₀ ht₀
    refine ⟨t, ht, ?_⟩
    rw [hupdates, worldAfter_zero]
    exact hsplit
  · have hslots : ∃ t, (worldAfter nodes es n).content? k = some (.text t) ∧
        s.slots = Sheet.split t := by
      cases he : es[n]? with
      | none =>
        rw [worldAfter_succ_none nodes he, hold] at hnew
        exact absurd hnew (by simp)
      | some e =>
        rw [worldAfter_succ nodes he] at hnew
        exact slots_of_step hnew hold hk
    refine ⟨hslots, fun m hm j s₀ hwrites => ?_⟩
    obtain ⟨t, ht, hs⟩ := hslots
    obtain ⟨t₀, ht₀, hs₀⟩ := current_of_writes (hok m) hwrites
    obtain ⟨t', rs, ht', hupdates, hsplit⟩ := worldAfter_leads nodes es hm k t₀ ht₀
    obtain rfl : t' = t := by
      have heq := ht'.symm.trans ht
      simpa using heq
    rw [← hs₀, ← hs] at hsplit
    refine ⟨⟨rs, hupdates, hsplit⟩, fun hsame => ?_⟩
    -- no rewrites came in between
    obtain rfl : rs = [] := by simpa [hsame] using hupdates
    exact hsplit

/-- One sheet with a width. -/
def widthDisk : List (Key × Node) := [(["s.txt".toList], .file (.text "\"w\"=1m\r\n".toList))]

/-- The sheet is opened twice, set through the second handle, which has no lock, and through the
first, which is then closed, and opened again. -/
def widthRun : List Event :=
  [.opens ⟨[], ["s.txt".toList]⟩ .nothing, .opens ⟨[], ["s.txt".toList]⟩ .nothing,
    .sets 1 ['w'] ⟨.int 3, trivial⟩ false, .sets 0 ['w'] ⟨.int 2, trivial⟩ false, .closes 0 true,
    .opens ⟨[], ["s.txt".toList]⟩ .nothing]

/-- The third handle has the slots of the first one with its one rewrite. -/
theorem single_writer_reopened :
    ((worldAfter widthDisk widthRun 6).handles[2]?.map SheetFile.slots) =
      ((worldAfter widthDisk widthRun 1).handles[0]?.map fun s₀ =>
        replay s₀.slots [⟨0, "\"w\"=1m".toList, "\"w\"=2m".toList⟩]) := by
  obtain ⟨s₀, hs₀⟩ : ∃ s₀, (worldAfter widthDisk widthRun 1).handles[0]? = some s₀ :=
    Option.isSome_iff_exists.1 (by decide +kernel)
  obtain ⟨s, hs⟩ : ∃ s, (worldAfter widthDisk widthRun 6).handles[2]? = some s :=
    Option.isSome_iff_exists.1 (by decide +kernel)
  have hkeys : (worldAfter widthDisk widthRun 1).handles[0]?.map (fun s => (key? s, s.readonly)) =
      some (some ["s.txt".toList], false) := by decide +kernel
  have hkey : (worldAfter widthDisk widthRun 6).handles[2]?.bind key? = some ["s.txt".toList] := by
    decide +kernel
  have hlog : (worldAfter widthDisk widthRun 5).updates ["s.txt".toList] =
      (worldAfter widthDisk widthRun 1).updates ["s.txt".toList] ++
        [⟨0, "\"w\"=1m".toList, "\"w\"=2m".toList⟩] := by decide +kernel
  rw [hs₀, Option.map_some, Option.some.injEq, Prod.mk.injEq] at hkeys
  rw [hs, Option.bind_some] at hkey
  obtain ⟨-, -, -, -, hopened⟩ := single_writer widthDisk widthRun 5
  obtain ⟨-, hearlier⟩ := hopened ["s.txt".toList] 2 s (by decide +kernel) hs hkey
  obtain ⟨⟨rs, hrs, hslots⟩, -⟩ := hearlier 1 (by decide) 0 s₀ ⟨hs₀, hkeys⟩
  obtain rfl := List.append_cancel_left (hlog.symm.trans hrs)
  rw [hs₀, hs, Option.map_some, Option.map_some, hslots]

end EquationSheet.Sharing
