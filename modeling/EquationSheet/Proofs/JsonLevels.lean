import EquationSheet.Proofs.JsonText
import EquationSheet.Settings

/-!
# Values that are cut off

Where the levels run out while a value is written, what was written so far stays. It is the front of
the whole text. A value that can be read back on so many levels is written in full on one more, which
a number on the innermost level may need.

* `prefix_of_cutOff?`: what is written before the levels run out is the front of the text.
* `cutOff?_of_fits`: one level more than it takes to read a value suffices to write it.
* `Settings.written_cases`: what a file holds of a value that is saved: all of it, or its front.
-/

namespace EquationSheet

namespace Json

variable {l : Layout} {depth levels : ℕ} {t u : Text} {j : Json}

theorem write_isPrefix (h : t <+: u) (j : Json) : write l depth j t <+: write l depth j u := by
  obtain ⟨tail, rfl⟩ := h
  rw [write_append]
  exact List.prefix_append _ _

/-- What stands before an item is written with it or not at all. -/
theorem ahead_isPrefix {item : Json} (before : Text) (hcut : cutOff? l depth levels item = some t)
    (h : t <+: u) : ahead before item ++ t <+: before ++ u := by
  cases item with
  | float x =>
    simp only [cutOff?, Option.ite_none_right_eq_some] at hcut
    obtain rfl := Option.some.inj hcut.2
    exact List.nil_prefix
  | _ => exact (List.prefix_append_right_inj _).2 h

mutual

/-- **What is written before the levels run out** is the front of the whole text. -/
theorem prefix_of_cutOff? : ∀ (j : Json) {depth levels : ℕ} {t : Text} (rest : Text),
    cutOff? l depth levels j = some t → t <+: write l depth j rest
  | float x, _, _, _, rest, h => by
    simp only [cutOff?, Option.ite_none_right_eq_some] at h
    obtain rfl := Option.some.inj h.2
    exact List.nil_prefix
  | arr (item :: more), _, 0, _, rest, h => by
    obtain rfl := Option.some.inj h
    exact List.nil_prefix
  | arr (item :: more), depth, levels + 1, t, rest, h => by
    simp only [cutOff?] at h
    simp only [write, ← List.cons_append]
    split at h
    · rename_i t' hitem
      obtain rfl := Option.some.inj h
      exact ahead_isPrefix _ hitem (prefix_of_cutOff? item _ hitem)
    · obtain ⟨t', hmore, rfl⟩ := Option.map_eq_some_iff.1 h
      exact (List.prefix_append_right_inj _).2
        (write_isPrefix (prefix_of_cutItems? more _ hmore) item)
  | obj ((key, value) :: more), _, 0, _, rest, h => by
    obtain rfl := Option.some.inj h
    exact List.nil_prefix
  | obj ((key, value) :: more), depth, levels + 1, t, rest, h => by
    simp only [cutOff?] at h
    have hwrite : write l depth (obj ((key, value) :: more)) rest = '{' ::
        (l.lineBreak (depth + 1) ++ (stringText key ++ [':', ' '])) ++
          write l (depth + 1) value (writeMembers l (depth + 1) more
            (l.lineBreak depth ++ '}' :: rest)) := by
      simp [write]
    rw [hwrite]
    split at h
    · rename_i t' hvalue
      obtain rfl := Option.some.inj h
      exact (List.prefix_append_right_inj _).2 (prefix_of_cutOff? value _ hvalue)
    · obtain ⟨t', hmore, rfl⟩ := Option.map_eq_some_iff.1 h
      exact (List.prefix_append_right_inj _).2
        (write_isPrefix (prefix_of_cutMembers? more _ hmore) value)

theorem prefix_of_cutItems? : ∀ (items : List Json) {depth levels : ℕ} {t : Text} (rest : Text),
    cutItems? l depth levels items = some t → t <+: writeItems l depth items rest
  | item :: more, depth, levels, t, rest, h => by
    simp only [cutItems?] at h
    rw [writeItems]
    split at h
    · rename_i t' hitem
      obtain rfl := Option.some.inj h
      exact ahead_isPrefix _ hitem (prefix_of_cutOff? item _ hitem)
    · obtain ⟨t', hmore, rfl⟩ := Option.map_eq_some_iff.1 h
      exact (List.prefix_append_right_inj _).2
        (write_isPrefix (prefix_of_cutItems? more _ hmore) item)

theorem prefix_of_cutMembers? : ∀ (ms : Members) {depth levels : ℕ} {t : Text} (rest : Text),
    cutMembers? l depth levels ms = some t → t <+: writeMembers l depth ms rest
  | (key, value) :: more, depth, levels, t, rest, h => by
    simp only [cutMembers?] at h
    have hwrite : writeMembers l depth ((key, value) :: more) rest =
        l.separator depth ++ (stringText key ++ [':', ' ']) ++
          write l depth value (writeMembers l depth more rest) := by
      simp [writeMembers]
    rw [hwrite]
    split at h
    · rename_i t' hvalue
      obtain rfl := Option.some.inj h
      exact (List.prefix_append_right_inj _).2 (prefix_of_cutOff? value _ hvalue)
    · obtain ⟨t', hmore, rfl⟩ := Option.map_eq_some_iff.1 h
      exact (List.prefix_append_right_inj _).2
        (write_isPrefix (prefix_of_cutMembers? more _ hmore) value)

end

mutual

/-- **One level more than it takes to read a value** suffices to write it. -/
theorem cutOff?_of_fits : ∀ (j : Json) {levels : ℕ} (depth : ℕ), Fits levels j →
    cutOff? l depth (levels + 1) j = none
  | null, _, _, _ => rfl
  | bool _, _, _, _ => rfl
  | int _, _, _, _ => rfl
  | float _, _, _, _ => rfl
  | str _, _, _, _ => rfl
  | arr [], _, _, _ => rfl
  | arr (item :: more), _ + 1, depth, .arr hitems => by
    obtain ⟨hitem, hmore⟩ := List.forall_mem_cons.1 hitems
    simp only [cutOff?, cutOff?_of_fits item (depth + 1) hitem,
      cutItems?_of_fits more (depth + 1) hmore, Option.map_none]
  | obj [], _, _, _ => rfl
  | obj ((key, value) :: more), _ + 1, depth, .obj _ hms => by
    obtain ⟨hvalue, hmore⟩ := List.forall_mem_cons.1 hms
    simp only [cutOff?, cutOff?_of_fits value (depth + 1) hvalue,
      cutMembers?_of_fits more (depth + 1) hmore, Option.map_none]

theorem cutItems?_of_fits : ∀ (items : List Json) {levels : ℕ} (depth : ℕ),
    (∀ j ∈ items, Fits levels j) → cutItems? l depth (levels + 1) items = none
  | [], _, _, _ => rfl
  | item :: more, levels, depth, h => by
    obtain ⟨hitem, hmore⟩ := List.forall_mem_cons.1 h
    simp only [cutItems?, cutOff?_of_fits item depth hitem, cutItems?_of_fits more depth hmore,
      Option.map_none]

theorem cutMembers?_of_fits : ∀ (ms : Members) {levels : ℕ} (depth : ℕ),
    (∀ m ∈ ms, Fits levels m.2) → cutMembers? l depth (levels + 1) ms = none
  | [], _, _, _ => rfl
  | (key, value) :: more, levels, depth, h => by
    obtain ⟨hvalue, hmore⟩ := List.forall_mem_cons.1 h
    simp only [cutMembers?, cutOff?_of_fits value depth hvalue,
      cutMembers?_of_fits more depth hmore, Option.map_none]

end

theorem staysWithin_of_fits (h : Fits levels j) : j.staysWithin (levels + 1) = true := by
  rw [staysWithin, cutOff?_of_fits j 0 h]
  rfl

theorem indentedWithin_of_staysWithin (h : j.staysWithin levels = true) :
    j.indentedWithin levels = j.indented := by
  rw [indentedWithin, Option.isNone_iff_eq_none.1 h]
  rfl

theorem indentedWithin_isPrefix (levels : ℕ) (j : Json) : j.indentedWithin levels <+: j.indented := by
  unfold indentedWithin
  cases hcut : cutOff? .manyLines 0 levels j with
  | none => exact List.prefix_refl _
  | some t => exact prefix_of_cutOff? j [] hcut

end Json

namespace Settings

variable {c : Conditions} {j : Json}

/-- There is room for so much text. -/
def HasRoom (c : Conditions) (t : Text) : Prop := ∀ room, c.room = some room → t.length ≤ room

/-- **A file holds of a value that is saved** all of it, or its front: without enough room, or where
the levels run out. -/
theorem written_cases (c : Conditions) (j : Json) :
    (j.staysWithin c.limits.save = true ∧ HasRoom c j.indented ∧
      written c j = (.ok (), j.indented)) ∨
    ∃ fault part, part <+: j.indented ∧ written c j = (.error fault, part) ∧
      ((fault = .file .noSpace ∧ ¬ HasRoom c (j.indentedWithin c.limits.save)) ∨
        (fault = .tooDeep ∧ j.staysWithin c.limits.save = false ∧
          HasRoom c (j.indentedWithin c.limits.save))) := by
  have hpart := j.indentedWithin_isPrefix c.limits.save
  by_cases hroom : HasRoom c (j.indentedWithin c.limits.save)
  · have hall : written c j = (if j.staysWithin c.limits.save then .ok () else .error .tooDeep,
        j.indentedWithin c.limits.save) := by
      unfold written
      cases hr : c.room with
      | none => simp; split <;> rfl
      | some room =>
        have hle := hroom room hr
        simp only [List.take_of_length_le hle, lt_irrefl, if_false]
        split <;> rfl
    cases hlevels : j.staysWithin c.limits.save with
    | true =>
      rw [hlevels, Json.indentedWithin_of_staysWithin hlevels] at hall
      rw [Json.indentedWithin_of_staysWithin hlevels] at hroom
      exact .inl ⟨rfl, hroom, hall⟩
    | false =>
      rw [hlevels] at hall
      exact .inr ⟨.tooDeep, _, hpart, hall, .inr ⟨rfl, rfl, hroom⟩⟩
  · obtain ⟨room, hr, hlt⟩ : ∃ room, c.room = some room ∧
        room < (j.indentedWithin c.limits.save).length := by
      simpa [HasRoom] using hroom
    have hcut : written c j = (.error (.file .noSpace),
        (j.indentedWithin c.limits.save).take room) := by
      unfold written
      rw [hr]
      simp only [List.length_take]
      rw [if_pos (by omega)]
    exact .inr ⟨_, _, (List.take_prefix _ _).trans hpart, hcut, .inl ⟨rfl, hroom⟩⟩

/-- What a file holds of a value is the front of its text, and all of it if saving went through. -/
theorem written_isPrefix (c : Conditions) (j : Json) : (written c j).2 <+: j.indented ∧
    ((written c j).1 = .ok () → (written c j).2 = j.indented) := by
  rcases written_cases c j with ⟨-, -, hall⟩ | ⟨fault, part, hpart, hcut, -⟩
  · rw [hall]
    exact ⟨List.prefix_refl _, fun _ => rfl⟩
  · rw [hcut]
    exact ⟨hpart, by simp⟩

end Settings

end EquationSheet
