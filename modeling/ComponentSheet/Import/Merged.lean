import ComponentSheet.Import.Files
import ComponentSheet.Import.Line
import ComponentSheet.Sheet.Position

/-! A stylesheet with its imports put in their places. Each file is put in once, in the place of
the first import that leads to it. -/

namespace ComponentSheet.Import

inductive LoadError where
  | unresolved (path : Path)
  | unreadable (path : Path)
  /-- The file at this path is imported on the way from itself. -/
  | recursive (path : Path)
deriving DecidableEq, Repr

def LoadError.message : LoadError → Text
  | .unresolved p => "failed to resolve ".toList ++ p
  | .unreadable p => "failed to read ".toList ++ p
  | .recursive p => "recursive import detected: ".toList ++ p

/-- A line of a merged text: line `number` of the file that was imported as `file`. -/
structure Origin where
  text : Text
  file : Path
  number : Nat
deriving DecidableEq, Repr

/-- The files that were put in, and the lines they gave. -/
abbrev Progress := List Path × List Origin

/-- Puts the imports of a file in their places, each by `load`, which takes the files that were
put in before. -/
def inlined (load : List Path → Path → Except LoadError Progress) (file : Path) :
    List Path → List Line → Except LoadError Progress
  | visited, [] => return (visited, [])
  | visited, .plain number text :: l => do
    let (visited, rest) ← inlined load file visited l
    return (visited, ⟨text, file, number⟩ :: rest)
  | visited, .imported path :: l => do
    let (visited, first) ← load visited (Path.join file.parent path)
    let (visited, rest) ← inlined load file visited l
    return (visited, first ++ rest)

/-- The paths other than `path`. -/
def without (path : Path) (l : List Path) : List Path :=
  l.filter (· ≠ path)

theorem length_without_lt {path : Path} {l : List Path} (h : path ∈ l) :
    (without path l).length < l.length :=
  List.length_filter_lt_length_iff_exists.2 ⟨path, h, by simp⟩

/-- The lines of the file at `path` and of its imports. The files that are not on the way from the
entry to this file are `free`; those that were put in before are `visited`. -/
def load (files : Files) (free visited : List Path) (path : Path) : Except LoadError Progress :=
  match files.resolve path with
  | none => .error (.unresolved path)
  | some canonical =>
    if _h : canonical ∈ free then
      if canonical ∈ visited then .ok (visited, [])
      else
        match files.read canonical with
        | none => .error (.unreadable canonical)
        | some text =>
          inlined (fun v p => load files (without canonical free) v p) path (canonical :: visited)
            (fileLines text)
    else .error (.recursive canonical)
termination_by free.length
decreasing_by
  exact length_without_lt _h

/-- A text whose lines know where they come from. -/
abbrev Merged := List Origin

/-- The stylesheet at `entry` with all its imports. -/
def merge (files : Files) (entry : Path) : Except LoadError Merged :=
  (load files files.paths [] entry).map (·.2)

namespace Merged

def text (m : Merged) : Text :=
  m.flatMap fun l => l.text ++ ['\n']

/-- The file and the position in it that a position in the merged text comes from. -/
def locate? (m : Merged) (p : Position) : Option (Path × Position) :=
  match p.line with
  | 0 => none
  | n + 1 => m[n]?.map fun l => (l.file, ⟨l.number, p.column⟩)

end Merged

end ComponentSheet.Import
