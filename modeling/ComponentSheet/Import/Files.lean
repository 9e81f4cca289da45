import ComponentSheet.Import.Path

/-! The files that imports can lead to. -/

namespace ComponentSheet.Import

/-- Finitely many files, each with one canonical path, and the paths that lead to them. -/
structure Files where
  /-- The canonical paths. -/
  paths : List Path
  /-- The canonical path of what a path leads to. -/
  resolve : Path → Option Path
  /-- The text of what is at a canonical path, if it is a file with a text. -/
  read : Path → Option Text
  mem_of_resolve : ∀ {p q}, resolve p = some q → q ∈ paths

end ComponentSheet.Import
