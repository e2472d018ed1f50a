import EquationSheet.Disk.SheetFile
import EquationSheet.Store.Lookup

/-!
# Changing the value of a variable

The number at the start of a value text, behind an optional opening quote and blanks, is replaced
and the rest of the value text is kept. The new value text then takes the place of the old one
wherever that occurs in the slot, in the name too.

* `newValue`: the new value text.
* `plan`: the slot to rewrite and its new text, nothing when no slot has the name.
* `SlotSource`: the slots a store works on, in memory or in an open sheet.
* `setOne`: carries the plan out, with at most one write.
-/

namespace EquationSheet

namespace Store

/-- How far the opening quote and the blanks behind it reach. -/
def openingLength (value : Text) : Nat :=
  let unquoted : Text := match value with
    | '"' :: rest => rest
    | value => value
  value.length - unquoted.skipBlanks.length

/-- The value text with its leading number replaced. -/
def newValue (value : Text) (v : Scalar) : Except Fault Text :=
  let start := openingLength value
  match Numeral.read (value.drop start) with
  | .error fault => .error (.equation (.parse ⟨fault, value, start⟩))
  | .ok (_, rest) =>
    match v.numberText with
    | .error fault => .error (.scalar fault)
    | .ok number => .ok (value.take start ++ number ++ rest)

/-- A slot to be rewritten. -/
structure Rewrite where
  index : Nat
  before : Text
  after : Text
  deriving DecidableEq

/-- A binary64 number has to be finite to be a value. -/
def isAcceptable : Scalar → Bool
  | .float x => x.isFinite
  | _ => true

/-- The rewrite of a slot that was found. -/
def rewrite (name : Text) (v : Scalar) (found : Found) : Except Fault Rewrite :=
  if found.value.isEmpty then
    .error (.equation (.parse ⟨.slotWithoutValue name, found.slot, found.slot.length⟩))
  else
    (newValue found.value v).map fun value =>
      ⟨found.index, found.slot, Text.replaceAll found.value value found.slot⟩

/-- What setting a variable amounts to: the first slot of the name and its new text. -/
def plan (slots : List Text) (name : Text) (v : Scalar) : Except Fault (Option Rewrite) :=
  if !isAcceptable v then .error (.equation (.ofFault (.infiniteNewValue name)))
  else
    match findSlot slots name with
    | .error e => .error (.equation e)
    | .ok none => .ok none
    | .ok (some found) => (rewrite name v found).map some

/-! ### Slots in memory and on a disk -/

end Store

/-- The slots that a store works on. Slots in memory may refuse to be written. -/
inductive SlotSource
  | memory (slots : List Text) (refuses : Bool)
  | file (sheet : SheetFile)
  deriving DecidableEq

namespace SlotSource

/-- The texts of all slots. -/
def texts : SlotSource → List Text
  | memory slots _ => slots
  | file sheet => sheet.slots

/-- Rewrites one slot. -/
def setText (s : SlotSource) (index : Nat) (t : Text) (h : Host) : Except Fault SlotSource × Host :=
  match s with
  | memory slots refuses =>
    if refuses then (.error (.file .diskFull), h)
    else if index < slots.length then (.ok (memory (slots.set index t) false), h)
    else (.error .outOfRange, h)
  | file sheet =>
    match sheet.setText index t h with
    | (.ok sheet, h) => (.ok (file sheet), h)
    | (.error fault, h) => (.error fault, h)

end SlotSource

namespace Store

/-- The journal entry of a rewrite. -/
def Rewrite.message (name : Text) (r : Rewrite) : String :=
  "Set " ++ String.ofList name ++ ": " ++ String.ofList r.before.quoted ++ " -> " ++
    String.ofList r.after.quoted

/-- Replaces the number in the first equation of a name. Answers the rewrite, if a slot has the
name, and the slots afterwards; with a fault the slots are as before. -/
def setOne (s : SlotSource) (name : Text) (v : Scalar) (h : Host) :
    Except Fault (Option Rewrite × SlotSource) × Host :=
  match plan s.texts name v with
  | .error fault => (.error fault, h)
  | .ok none =>
    (.ok (none, s), h.log Logger.store Level.debug ("No equation named " ++ String.ofList name))
  | .ok (some r) =>
    match s.setText r.index r.after h with
    | (.error fault, h) => (.error fault, h)
    | (.ok s, h) => (.ok (some r, s), h.log Logger.store Level.info (r.message name))

/-- The value text of a variable, with a journal entry. -/
def lookup (s : SlotSource) (name : Text) (h : Host) : Except Fault (Option Text) × Host :=
  match getOne s.texts name with
  | .error e => (.error (.equation e), h)
  | .ok value =>
    let shown := match value with
      | none => "None"
      | some value => String.ofList value.quoted
    (.ok value, h.log Logger.store Level.debug
      ("Lookup " ++ String.ofList name ++ " -> " ++ shown))

end Store

end EquationSheet
