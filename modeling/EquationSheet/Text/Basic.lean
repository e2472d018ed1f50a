/-!
# Texts

Everything that is scanned, stored or compared is a list of code points, so that lengths and columns
count code points and every scanner is a recursion on its remaining input.

* `occursIn`, `replaceAll`: plain substring search and replacement, from the left, without overlap.
* `segments`: the pieces between the occurrences of a separator; there is always a first one.
* `occursIn_iff`: what is searched for is an infix of the text.
* `replaceFrom_skip`: the covered code points are dropped.
-/

namespace EquationSheet

/-- A text is its list of code points. -/
abbrev Text := List Char

namespace Text

/-- The text `old` occurs somewhere in another. -/
def occursIn (old : Text) : Text → Bool
  | [] => old.isEmpty
  | c :: rest => old.isPrefixOf (c :: rest) || occursIn old rest

theorem occursIn_iff {old t : Text} : occursIn old t = true ↔ old <:+: t := by
  induction t with
  | nil => simp [occursIn]
  | cons c rest ih =>
    simp only [occursIn, Bool.or_eq_true, List.isPrefixOf_iff_prefix, ih, List.infix_cons_iff]

/-- Replaces every occurrence of the text `first :: old` by `new`, from the left and without
overlap: `skip` counts the code points still covered by the occurrence found last. -/
def replaceFrom (first : Char) (old new : Text) : Nat → Text → Text
  | _, [] => []
  | skip + 1, _ :: rest => replaceFrom first old new skip rest
  | 0, c :: rest =>
    if (first :: old).isPrefixOf (c :: rest) then new ++ replaceFrom first old new old.length rest
    else c :: replaceFrom first old new 0 rest

theorem replaceFrom_skip (first : Char) (old new : Text) (skip : Nat) (t : Text) :
    replaceFrom first old new skip t = replaceFrom first old new 0 (t.drop skip) := by
  induction t generalizing skip with
  | nil => cases skip <;> simp [replaceFrom]
  | cons c rest ih =>
    cases skip with
    | zero => rfl
    | succ skip => simpa [replaceFrom] using ih skip

/-- Replaces every occurrence of a non-empty `old` by `new`. The empty text is never looked for
here, and the text is then left as it is. -/
def replaceAll (old new t : Text) : Text :=
  match old with
  | [] => t
  | first :: more => replaceFrom first more new 0 t

/-- The pieces of a text between the occurrences of `separator`. -/
def segments (separator : Char) : Text → List Text
  | [] => [[]]
  | c :: rest =>
    if c = separator then [] :: segments separator rest
    else match segments separator rest with
      | [] => [[c]]
      | piece :: more => (c :: piece) :: more

theorem segments_ne_nil (separator : Char) (t : Text) : segments separator t ≠ [] := by
  cases t with
  | nil => simp [segments]
  | cons c rest =>
    simp only [segments]
    split
    · simp
    · split <;> simp

/-- How many bytes the text takes in UTF-8. -/
def byteCount (t : Text) : Nat := t.foldl (fun n c => n + c.utf8Size) 0

/-- The texts with `separator` between them. -/
def joinWith (separator : Text) : List Text → Text
  | [] => []
  | [t] => t
  | t :: more => t ++ separator ++ joinWith separator more

end Text

end EquationSheet
