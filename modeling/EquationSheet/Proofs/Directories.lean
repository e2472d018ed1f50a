import EquationSheet.Settings
import Mathlib.Data.List.Infix
import Mathlib.Data.List.Induction
import Mathlib.Tactic

/-!
# Directories that are made

Saving makes the directories on the way to a file. The keys on the way may go up as well as down,
since a path may hold double dots. A directory can be made with all that is missing on the way,
unless the way leads through a file or a name on it is too long, and it then adds what was missing
and no more.

* `Disk.reached`, `Disk.trail`: the key of a path, and the keys on the way.
* `walk_eq_ok_iff`, `walk_eq_notFound`: what a walk comes to.
* `CanMake`: **when a directory can be made**, with what is missing on the way.
* `makeParts_of_canMake`, `canMake_of_makeParts`: then it is made, and only then.
-/

namespace EquationSheet

/-! ### Lengths -/

namespace Text

theorem foldl_utf8Size (t : Text) (n : ℕ) :
    t.foldl (fun n c => n + c.utf8Size) n = n + t.byteCount := by
  unfold byteCount
  induction t generalizing n with
  | nil => rfl
  | cons c t ih => rw [List.foldl_cons, List.foldl_cons, ih, ih (0 + c.utf8Size)]; omega

theorem byteCount_append (s t : Text) : (s ++ t).byteCount = s.byteCount + t.byteCount := by
  conv_lhs => unfold byteCount
  rw [List.foldl_append, foldl_utf8Size]
  rfl

theorem joinWith_concat (separator : Text) {parts : List Text} (hne : parts ≠ []) (part : Text) :
    joinWith separator (parts ++ [part]) = joinWith separator parts ++ separator ++ part := by
  induction parts with
  | nil => exact absurd rfl hne
  | cons first rest ih =>
    cases rest with
    | nil => simp [joinWith]
    | cons second rest =>
      have hrest := ih (by simp)
      simp only [List.cons_append, joinWith] at hrest ⊢
      rw [hrest]
      simp only [List.append_assoc]

end Text

namespace Path

/-- A directory above has a shorter path. -/
theorem isTooLong_of_concat {root : Text} {parts : List Text} {part : Text} (hne : parts ≠ [])
    (h : (⟨root, parts ++ [part]⟩ : Path).isTooLong = false) :
    (⟨root, parts⟩ : Path).isTooLong = false := by
  have hparts : parts.isEmpty = false := by simpa using hne
  have hall : (parts ++ [part]).isEmpty = false := by simp
  simp only [isTooLong, toText, decide_eq_false_iff_not, Nat.not_lt, hparts, hall, Bool.and_false,
    Bool.false_eq_true, if_false, Text.joinWith_concat _ hne, Text.byteCount_append] at h ⊢
  omega

end Path

namespace Disk

variable {d d' : Disk} {parts : List Text} {part root : Text} {k : Key}

/-! ### The way of a path -/

/-- The key that the parts of a path lead to. -/
def reached (parts : List Text) : Key := parts.foldl step []

/-- The keys on the way, with the one that is reached. -/
def trail (parts : List Text) : List Key := parts.inits.map reached

theorem reached_concat (parts : List Text) (part : Text) :
    reached (parts ++ [part]) = step (reached parts) part := by
  simp [reached]

theorem mem_trail_concat : k ∈ trail (parts ++ [part]) ↔
    k ∈ trail parts ∨ k = reached (parts ++ [part]) := by
  simp only [trail, List.mem_map, List.mem_inits, List.prefix_concat_iff]
  constructor
  · rintro ⟨pre, rfl | hpre, rfl⟩
    · exact .inr rfl
    · exact .inl ⟨pre, hpre, rfl⟩
  · rintro (⟨pre, hpre, rfl⟩ | rfl)
    · exact ⟨pre, .inr hpre, rfl⟩
    · exact ⟨_, .inl rfl, rfl⟩

theorem trail_nil : trail [] = [[]] := rfl

/-- The way is there. -/
def There (d : Disk) (parts : List Text) : Prop := ∀ k ∈ trail parts, d.node? k = some .directory

/-- No file is on the way. -/
def Passable (d : Disk) (parts : List Text) : Prop := ∀ k ∈ trail parts, d.content? k = none

/-- No part is too long to be looked up. -/
def Short (parts : List Text) : Prop := ∀ part ∈ parts, part.byteCount ≤ Path.maxPartBytes

theorem there_nil (d : Disk) : d.There [] := by
  intro k hk
  obtain rfl : k = [] := by simpa [trail_nil] using hk
  rfl

theorem there_concat : d.There (parts ++ [part]) ↔
    d.There parts ∧ d.node? (reached (parts ++ [part])) = some .directory := by
  simp only [There, mem_trail_concat, or_imp, forall_and, forall_eq]

theorem passable_concat : d.Passable (parts ++ [part]) ↔
    d.Passable parts ∧ d.content? (reached (parts ++ [part])) = none := by
  simp only [Passable, mem_trail_concat, or_imp, forall_and, forall_eq]

theorem short_concat : Short (parts ++ [part]) ↔
    Short parts ∧ part.byteCount ≤ Path.maxPartBytes := by
  simp only [Short, List.mem_append, List.mem_singleton, or_imp, forall_and, forall_eq]

theorem reached_mem_trail (parts : List Text) : reached parts ∈ trail parts :=
  List.mem_map.2 ⟨parts, (List.mem_inits _ _).2 List.prefix_rfl, rfl⟩

theorem trail_dropLast_subset (parts : List Text) : trail parts.dropLast ⊆ trail parts := by
  intro k hk
  obtain ⟨pre, hpre, rfl⟩ := List.mem_map.1 hk
  refine List.mem_map.2 ⟨pre, (List.mem_inits _ _).2 ?_, rfl⟩
  exact ((List.mem_inits _ _).1 hpre).trans (List.dropLast_prefix parts)

theorem content?_of_directory (h : d.node? k = some .directory) : d.content? k = none := by
  unfold content?
  rw [h]

theorem There.passable (h : d.There parts) : d.Passable parts :=
  fun k hk => content?_of_directory (h k hk)

/-! ### Walking -/

/-- The last part is looked up in the directory that the others lead to. -/
theorem walk_concat (d : Disk) (here : Key) (parts : List Text) (part : Text) :
    d.walk here (parts ++ [part]) = d.walk here parts >>= fun k => d.walk k [part] := by
  induction parts generalizing here with
  | nil => rfl
  | cons first rest ih =>
    simp only [List.cons_append, walk]
    split
    · split
      · rfl
      · exact ih _
    · rfl
    · rfl

theorem walk_single_eq_ok_iff {here : Key} : d.walk here [part] = .ok k ↔
    k = step here part ∧ part.byteCount ≤ Path.maxPartBytes ∧ d.node? here = some .directory := by
  simp only [walk]
  cases hnode : d.node? here with
  | none => simp
  | some node =>
    cases node with
    | file content => simp
    | directory =>
      by_cases hlong : Path.maxPartBytes < part.byteCount
      · simp [hlong]
      · simp [hlong, Nat.not_lt.1 hlong, eq_comm]

/-- **A walk ends** where the path leads, if the way is there and no part is too long. -/
theorem walk_eq_ok_iff : d.walk [] parts = .ok k ↔
    k = reached parts ∧ Short parts ∧ d.There parts.dropLast := by
  -- induction from the end: the last part is looked up where the others lead
  induction parts using List.reverseRecOn generalizing k with
  | nil =>
    have hthere := there_nil d
    simp [walk, reached, Short, hthere, eq_comm]
  | append_singleton parts part ih =>
    rw [walk_concat, List.dropLast_concat, short_concat]
    have hstep : ∀ here, d.walk [] parts = .ok here ↔
        here = reached parts ∧ Short parts ∧ d.There parts.dropLast := fun here => ih
    have hdirectory : d.There parts ↔
        d.There parts.dropLast ∧ d.node? (reached parts) = some .directory := by
      rcases List.eq_nil_or_concat' parts with rfl | ⟨above, last, rfl⟩
      · simp [there_nil d, reached, node?]
      · rw [there_concat, List.dropLast_concat]
    constructor
    · intro h
      cases hwalk : d.walk [] parts with
      | error cause => rw [hwalk] at h; simp [bind, Except.bind] at h
      | ok here =>
        rw [hwalk] at h
        obtain ⟨rfl, hshort, hthere⟩ := (hstep _).1 hwalk
        obtain ⟨rfl, hpart, hnode⟩ := walk_single_eq_ok_iff.1 h
        exact ⟨(reached_concat parts part).symm, ⟨hshort, hpart⟩, hdirectory.2 ⟨hthere, hnode⟩⟩
    · rintro ⟨rfl, ⟨hshort, hpart⟩, hthere⟩
      obtain ⟨habove, hnode⟩ := hdirectory.1 hthere
      rw [(hstep _).2 ⟨rfl, hshort, habove⟩]
      exact walk_single_eq_ok_iff.2 ⟨reached_concat parts part, hpart, hnode⟩

/-- A walk on which nothing is a file and no part is too long fails for want of a directory. -/
theorem walk_eq_notFound {cause : DiskCause} (hshort : Short parts)
    (hpass : d.Passable parts.dropLast) (h : d.walk [] parts = .error cause) :
    cause = .notFound := by
  induction parts using List.reverseRecOn with
  | nil => simp [walk] at h
  | append_singleton parts part ih =>
    rw [List.dropLast_concat] at hpass
    obtain ⟨hshort, hpart⟩ := short_concat.1 hshort
    rw [walk_concat] at h
    cases hwalk : d.walk [] parts with
    | error cause' =>
      obtain rfl : cause' = cause := by
        rw [hwalk] at h
        exact Except.error.inj h
      exact ih hshort (fun k hk => hpass k (trail_dropLast_subset parts hk)) hwalk
    | ok here =>
      rw [hwalk] at h
      obtain ⟨rfl, -, -⟩ := walk_eq_ok_iff.1 hwalk
      -- where the others lead is no file, so only a missing directory is left
      have hfile := hpass _ (reached_mem_trail parts)
      simp only [bind, Except.bind, walk] at h
      split at h
      · rw [if_neg (Nat.not_lt.2 hpart)] at h
        simp at h
      · rename_i content hnode
        simp [content?, hnode] at hfile
      · exact (Except.error.inj h).symm

theorem locate_eq_ok_iff {p : Path} : d.locate p = .ok k ↔
    p.isTooLong = false ∧ k = reached p.parts ∧ Short p.parts ∧ d.There p.parts.dropLast := by
  unfold locate
  rw [← walk_eq_ok_iff]
  cases p.isTooLong <;> simp

/-! ### Making one directory -/

/-- The way of a path was made, where nothing was, and no more. -/
structure Makes (d : Disk) (parts : List Text) (d' : Disk) : Prop where
  there : d'.There parts
  other : ∀ k, k ∉ trail parts → d'.node? k = d.node? k

theorem makes_self (h : d.There parts) : d.Makes parts d := ⟨h, fun _ _ => rfl⟩

theorem There.congr (h : d.There parts) (hsame : ∀ k ∈ trail parts, d'.node? k = d.node? k) :
    d'.There parts := fun k hk => (hsame k hk).trans (h k hk)

variable {p : Path}

theorem isDirectory_iff : d.isDirectory p = true ↔ p.isTooLong = false ∧ Short p.parts ∧
    d.There p.parts.dropLast ∧ d.node? (reached p.parts) = some .directory := by
  unfold isDirectory
  constructor
  · intro h
    split at h
    · rename_i k hlocate
      obtain ⟨hlong, rfl, hshort, hthere⟩ := locate_eq_ok_iff.1 hlocate
      exact ⟨hlong, hshort, hthere, by simpa using h⟩
    · simp at h
  · rintro ⟨hlong, hshort, hthere, hnode⟩
    rw [locate_eq_ok_iff.2 ⟨hlong, rfl, hshort, hthere⟩]
    simp [hnode]

theorem node?_append_directory (hnone : d.node? k = none) (k' : Key) :
    ({ d with nodes := d.nodes ++ [(k, .directory)] } : Disk).node? k' =
      if k' = k then some .directory else d.node? k' := by
  have hroot : k.isEmpty = false := by
    cases k with
    | nil => simp [node?] at hnone
    | cons part rest => rfl
  have hlookup : d.nodes.lookup k = none := by simpa [node?, hroot] using hnone
  unfold node?
  -- the new entry is the last one, and counts where nothing was
  by_cases hk : k' = k
  · subst hk
    simp [hroot, List.lookup_append, hlookup]
  · simp [hk, List.lookup_append, List.lookup_cons, beq_false_of_ne hk]

/-- **One directory is made**, if the way to it is there and no file is in its place. -/
theorem ensureDirectory_of_there (hlong : (⟨root, parts ++ [part]⟩ : Path).isTooLong = false)
    (hshort : Short (parts ++ [part])) (hthere : d.There parts)
    (hfile : d.content? (reached (parts ++ [part])) = none) :
    ∃ d', d.ensureDirectory ⟨root, parts ++ [part]⟩ = (.ok (), d') ∧
      (d.makeDirectory ⟨root, parts ++ [part]⟩ = .ok d' ∨
        d.makeDirectory ⟨root, parts ++ [part]⟩ = .error .alreadyExists) ∧
      d.Makes (parts ++ [part]) d' := by
  have hlocate : d.locate ⟨root, parts ++ [part]⟩ = .ok (reached (parts ++ [part])) :=
    locate_eq_ok_iff.2 ⟨hlong, rfl, hshort, by simpa using hthere⟩
  unfold ensureDirectory makeDirectory
  rw [hlocate]
  simp only
  cases hnode : d.node? (reached (parts ++ [part])) with
  | some node =>
    -- what is there is a directory
    obtain rfl : node = .directory := by
      cases node with
      | directory => rfl
      | file content => simp [content?, hnode] at hfile
    have hdirectory : d.isDirectory ⟨root, parts ++ [part]⟩ = true :=
      isDirectory_iff.2 ⟨hlong, hshort, by simpa using hthere, hnode⟩
    refine ⟨d, ?_, .inr rfl, makes_self (there_concat.2 ⟨hthere, hnode⟩)⟩
    simp only [unlessThere, hdirectory, if_true]
  | none =>
    have hmade := node?_append_directory hnode
    refine ⟨_, rfl, .inl rfl, there_concat.2 ⟨hthere.congr fun k hk => ?_, ?_⟩, fun k hk => ?_⟩
    · rw [hmade, if_neg]
      rintro rfl
      rw [hthere _ hk] at hnode
      simp at hnode
    · rw [hmade, if_pos rfl]
    · rw [hmade, if_neg]
      rintro rfl
      exact hk (reached_mem_trail _)

/-- What it took to make one directory. -/
theorem there_of_ensureDirectory (h : (d.ensureDirectory p).1 = .ok ()) :
    p.isTooLong = false ∧ Short p.parts ∧ d.There p.parts.dropLast ∧
      d.content? (reached p.parts) = none := by
  unfold ensureDirectory makeDirectory at h
  cases hlocate : d.locate p with
  | error cause =>
    rw [hlocate] at h
    simp only [unlessThere, isDirectory, hlocate, Bool.false_eq_true, if_false] at h
    simp at h
  | ok k =>
    obtain ⟨hlong, rfl, hshort, hthere⟩ := locate_eq_ok_iff.1 hlocate
    refine ⟨hlong, hshort, hthere, ?_⟩
    rw [hlocate] at h
    simp only at h
    unfold content?
    cases hnode : d.node? (reached p.parts) with
    | none => rfl
    | some node =>
      cases node with
      | directory => rfl
      | file content =>
        rw [hnode] at h
        simp [unlessThere, isDirectory, hlocate, hnode] at h

/-! ### Making all that is missing -/

/-- A directory can be made, with what is missing on the way: nothing is too long, and nothing on
the way is a file. -/
structure CanMake (d : Disk) (root : Text) (parts : List Text) : Prop where
  length : parts ≠ [] → (⟨root, parts⟩ : Path).isTooLong = false
  short : Short parts
  passable : d.Passable parts

theorem CanMake.above (h : d.CanMake root (parts ++ [part])) : d.CanMake root parts where
  length hne := Path.isTooLong_of_concat hne (h.length (by simp))
  short := (short_concat.1 h.short).1
  passable := (passable_concat.1 h.passable).1

/-- Where the way was made the directory itself can be made. -/
theorem Makes.ensureDirectory (hmakes : d.Makes parts d') (h : d.CanMake root (parts ++ [part])) :
    ∃ d'', d'.ensureDirectory ⟨root, parts ++ [part]⟩ = (.ok (), d'') ∧
      d.Makes (parts ++ [part]) d'' := by
  have hfile : d'.content? (reached (parts ++ [part])) = none := by
    by_cases hk : reached (parts ++ [part]) ∈ trail parts
    · exact content?_of_directory (hmakes.there _ hk)
    · have hsame := (passable_concat.1 h.passable).2
      unfold content? at hsame ⊢
      rwa [hmakes.other _ hk]
  obtain ⟨d'', hensure, -, hmakes'⟩ :=
    ensureDirectory_of_there (h.length (by simp)) h.short hmakes.there hfile
  refine ⟨d'', hensure, hmakes'.there, fun k hk => ?_⟩
  rw [hmakes'.other k hk, hmakes.other k fun hmem => hk (mem_trail_concat.2 (.inl hmem))]

/-- Where the way is not there yet, making the directory fails for want of one above. -/
theorem CanMake.makeDirectory_eq (h : d.CanMake root (parts ++ [part])) (hthere : ¬d.There parts) :
    d.makeDirectory ⟨root, parts ++ [part]⟩ = .error .notFound := by
  unfold makeDirectory locate
  rw [h.length (by simp)]
  simp only [Bool.false_eq_true, if_false]
  cases hwalk : d.walk [] (parts ++ [part]) with
  | ok k =>
    obtain ⟨-, -, hway⟩ := walk_eq_ok_iff.1 hwalk
    exact absurd (by simpa using hway) hthere
  | error cause =>
    have hpass : d.Passable (parts ++ [part]).dropLast := by
      simpa using (passable_concat.1 h.passable).1
    rw [walk_eq_notFound h.short hpass hwalk]

/-- One more directory is made, and what is above it if this is missing. -/
theorem makeParts_concat (d : Disk) (root : Text) (levels : ℕ) (parts : List Text) (part : Text) :
    d.makeParts root levels (parts ++ [part]).reverse =
      if d.makeDirectory ⟨root, parts ++ [part]⟩ = .error .notFound then
        match levels with
        | 0 => (.error .tooDeep, d)
        | levels + 1 =>
          match d.makeParts root levels parts.reverse with
          | (.error fault, d) => (.error fault, d)
          | (.ok (), d) => d.ensureDirectory ⟨root, parts ++ [part]⟩
      else d.ensureDirectory ⟨root, parts ++ [part]⟩ := by
  have hpath : (part :: parts.reverse).reverse = parts ++ [part] := by simp
  rw [List.reverse_concat]
  simp only [makeParts, hpath, ensureDirectory]
  cases hmake : d.makeDirectory ⟨root, parts ++ [part]⟩ with
  | ok d' => rfl
  | error cause => cases cause <;> rfl

/-- **A directory that can be made is made**, with what is missing on the way, and no more. -/
theorem makeParts_of_canMake {levels : ℕ} (h : d.CanMake root parts)
    (hlevels : parts.length ≤ levels + 1) :
    ∃ d', d.makeParts root levels parts.reverse = (.ok (), d') ∧ d.Makes parts d' := by
  induction parts using List.reverseRecOn generalizing levels with
  | nil => exact ⟨d, by simp [makeParts], makes_self (there_nil d)⟩
  | append_singleton parts part ih =>
    rw [makeParts_concat]
    by_cases hthere : d.There parts
    · -- nothing is missing above
      obtain ⟨d', hensure, hmake, hmakes⟩ := ensureDirectory_of_there (h.length (by simp)) h.short
        hthere (passable_concat.1 h.passable).2
      rw [if_neg (by rcases hmake with hmake | hmake <;> simp [hmake])]
      exact ⟨d', hensure, hmakes⟩
    · -- what is missing above is made first
      have hne : parts ≠ [] := by
        rintro rfl
        exact hthere (there_nil d)
      have hlength := List.length_pos_iff.2 hne
      rw [List.length_append, List.length_singleton] at hlevels
      obtain ⟨levels, rfl⟩ : ∃ n, levels = n + 1 := ⟨levels - 1, by omega⟩
      have hbound : parts.length ≤ levels + 1 := by omega
      obtain ⟨d', hmade, hmakes⟩ := ih h.above hbound
      rw [if_pos (h.makeDirectory_eq hthere)]
      simp only [hmade]
      exact hmakes.ensureDirectory h

/-- **A directory that is made could be made.** -/
theorem canMake_of_makeParts {levels : ℕ} (hlevels : parts.length ≤ levels + 1)
    (h : (d.makeParts root levels parts.reverse).1 = .ok ()) : d.CanMake root parts := by
  induction parts using List.reverseRecOn generalizing levels with
  | nil => exact ⟨fun hne => absurd rfl hne, by simp [Short], (there_nil d).passable⟩
  | append_singleton parts part ih =>
    rw [makeParts_concat] at h
    split at h
    · obtain ⟨levels, rfl⟩ : ∃ n, levels = n + 1 := by
        cases levels with
        | zero => simp at h
        | succ levels => exact ⟨levels, rfl⟩
      have hbound : parts.length ≤ levels + 1 := by simpa using hlevels
      simp only at h
      have habove : (d.makeParts root levels parts.reverse).1 = .ok () → d.CanMake root parts :=
        ih hbound
      cases hmade : d.makeParts root levels parts.reverse with
      | mk result d' =>
        rw [hmade] at h habove
        cases result with
        | error fault => simp at h
        | ok _ =>
          have hcan := habove rfl
          obtain ⟨d'', hmade', hmakes⟩ := makeParts_of_canMake hcan hbound
          obtain rfl : d' = d'' := (Prod.mk.inj (hmade.symm.trans hmade')).2
          obtain ⟨hlong, hshort, -, hfile⟩ := there_of_ensureDirectory h
          refine ⟨fun _ => hlong, hshort, passable_concat.2 ⟨hcan.passable, ?_⟩⟩
          -- what making left alone is as before, and the rest could be passed
          by_cases hk : reached (parts ++ [part]) ∈ trail parts
          · exact hcan.passable _ hk
          · unfold content? at hfile ⊢
            rwa [hmakes.other _ hk] at hfile
    · obtain ⟨hlong, hshort, hthere, hfile⟩ := there_of_ensureDirectory h
      rw [List.dropLast_concat] at hthere
      exact ⟨fun _ => hlong, hshort, passable_concat.2 ⟨hthere.passable, hfile⟩⟩

end Disk

end EquationSheet
