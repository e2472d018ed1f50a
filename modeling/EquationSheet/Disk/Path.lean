import EquationSheet.Text.Basic

/-!
# Paths

A path is a root and its parts. Reading a path drops empty parts and single dots but keeps double
dots, which only mean the parent once a disk is walked.

* `Path.ofText`, `Path.toText`: between texts and paths.
* `Path.collapse`: double dots taken away together with the part before them.
* `Path.sidecar?`: the path of the settings kept beside a file.
-/

namespace EquationSheet

/-- A path; the root of a relative path is empty. -/
structure Path where
  root : Text
  parts : List Text
  deriving DecidableEq

namespace Path

/-- One slash at the start is a root, and exactly two are a root of their own. -/
def rootOf : Text → Text
  | '/' :: '/' :: '/' :: _ => ['/']
  | '/' :: '/' :: _ => ['/', '/']
  | '/' :: _ => ['/']
  | _ => []

def ofText (t : Text) : Path :=
  ⟨rootOf t, (Text.segments '/' t).filter fun part => !part.isEmpty && part != ['.']⟩

def toText (p : Path) : Text :=
  if p.root.isEmpty && p.parts.isEmpty then ['.'] else p.root ++ Text.joinWith ['/'] p.parts

/-- The last part; empty for a root. -/
def name (p : Path) : Text := p.parts.getLast?.getD []

/-- The path without its last part. -/
def parent (p : Path) : Path := { p with parts := p.parts.dropLast }

/-- A path holding the code point zero names no file. -/
def isNameable (p : Path) : Bool := p.parts.all fun part => !part.contains '\x00'

/-- The most bytes that a part of a path may take. -/
def maxPartBytes : Nat := 255

/-- The most bytes that a path may take. -/
def maxBytes : Nat := 4095

/-- The path is longer than any path that is looked up. -/
def isTooLong (p : Path) : Bool := decide (maxBytes < p.toText.byteCount)

/-- The parts with every double dot taken away together with the part before it; at the start
there is nothing to take away. -/
def collapseParts (before : List Text) : List Text → List Text
  | [] => before
  | part :: rest =>
    if part = ['.', '.'] then collapseParts before.dropLast rest
    else collapseParts (before ++ [part]) rest

/-- The path without double dots. -/
def collapse (p : Path) : Path := { p with parts := collapseParts [] p.parts }

/-- A file name without its extension: without the last dot and what follows, if there is
something on both sides of that dot. -/
def stem (name : Text) : Text :=
  let extension := name.reverse.takeWhile (· ≠ '.')
  let rest := name.reverse.dropWhile (· ≠ '.')
  match rest with
  | _ :: before => if extension.isEmpty || before.isEmpty then name else before.reverse
  | [] => name

/-- The extension of settings files. -/
def sidecarExtension : Text := ['.', 'c', 'f', 'g']

/-- The settings of a file are kept beside it, under its name with another extension. A path
without a name has none. -/
def sidecar? (p : Path) : Option Path :=
  match p.parts.getLast? with
  | none => none
  | some name => some { p with parts := p.parts.dropLast ++ [stem name ++ sidecarExtension] }

end Path

end EquationSheet
