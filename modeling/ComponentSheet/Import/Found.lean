import ComponentSheet.Import.Files

/-! Files as they were found by looking up one path after another. -/

namespace ComponentSheet.Import

/-- What a path was found to lead to. A file without text could not be read. -/
structure Found where
  path : Path
  canonical : Path
  text : Option Text
deriving DecidableEq, Repr

/-- The files that were found. Each was read when a path first led to it. -/
def Files.ofFound (l : List Found) : Files where
  paths := l.map (·.canonical)
  resolve p := (l.find? (·.path = p)).map (·.canonical)
  read c := (l.find? (·.canonical = c)).bind (·.text)
  mem_of_resolve h := by
    obtain ⟨f, hf, rfl⟩ := Option.map_eq_some_iff.1 h
    exact List.mem_map_of_mem (List.mem_of_find?_eq_some hf)

end ComponentSheet.Import
