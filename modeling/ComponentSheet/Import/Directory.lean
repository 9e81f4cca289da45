import ComponentSheet.Import.Files

/-! A tree of files and folders held in memory, seen from the folder that one works in. There are no
links in it. -/

namespace ComponentSheet.Import

inductive Entry where
  | text (content : Text)
  /-- A file whose bytes are no UTF-8. -/
  | binary
  | folder
deriving DecidableEq, Repr

/-- A name that a file or a folder can have. -/
def Ordinary (name : Text) : Prop :=
  '/' ∉ name ∧ name ≠ [] ∧ name ≠ ['.'] ∧ name ≠ ['.', '.']

instance (name : Text) : Decidable (Ordinary name) :=
  inferInstanceAs (Decidable (_ ∧ _))

/-- What a tree holds, by the names that lead to it from the root. -/
structure Directory where
  /-- The names that lead from the root to the working directory. -/
  base : List Text
  ordinary_base : ∀ name ∈ base, Ordinary name
  entries : List (List Text × Entry)

namespace Directory

/-- The folders from the root to the working directory, which are always there. -/
def way (d : Directory) : List (List Text) :=
  (List.range (d.base.length + 1)).map d.base.take

def all (d : Directory) : List (List Text × Entry) :=
  d.way.map (·, .folder) ++ d.entries

def find? (d : Directory) (names : List Text) : Option Entry :=
  (d.all.find? (·.1 = names)).map (·.2)

/-- Where a name leads to from the folder at `here`. A dot or an empty name stays, and so do two
dots at the root. -/
def step (here : List Text) (name : Text) : List Text :=
  if name = [] ∨ name = ['.'] then here
  else if name = ['.', '.'] then here.dropLast
  else here ++ [name]

/-- Follows names from the folder at `here`. Every name needs a folder to start from, also a dot or
an empty name. -/
def walk (d : Directory) (here : List Text) : List Text → Option (List Text)
  | [] => (d.find? here).map fun _ => here
  | name :: names => if d.find? here = some .folder then d.walk (step here name) names else none

/-- Where a path starts: an absolute one at the root, all others in the working directory. -/
def start (d : Directory) (path : Path) : List Text :=
  if path.head? = some '/' then [] else d.base

/-- The names of what a path leads to. -/
def follow (d : Directory) (path : Path) : Option (List Text) :=
  if path = [] then none else d.walk (d.start path) (Text.splitAt '/' path)

theorem mem_all_of_find? {d : Directory} {names : List Text} (h : (d.find? names).isSome) :
    names ∈ d.all.map (·.1) := by
  rw [find?, Option.isSome_map] at h
  obtain ⟨e, he⟩ := Option.isSome_iff_exists.1 h
  have hn : e.1 = names := by simpa using List.find?_some he
  exact hn ▸ List.mem_map_of_mem (List.mem_of_find?_eq_some he)

theorem find?_of_walk {d : Directory} {here names end_ : List Text}
    (h : d.walk here names = some end_) : (d.find? end_).isSome := by
  induction names generalizing here with
  | nil =>
    obtain ⟨e, he, rfl⟩ := Option.map_eq_some_iff.1 h
    simp [he]
  | cons name names ih =>
    rw [walk] at h
    split at h
    · exact ih h
    · cases h

theorem follow_eq_some {d : Directory} {path : Path} {names : List Text} :
    d.follow path = some names ↔
      path ≠ [] ∧ d.walk (d.start path) (Text.splitAt '/' path) = some names := by
  rw [follow]
  split
  · rename_i h
    exact iff_of_false nofun fun hn => hn.1 h
  · rename_i h
    exact (and_iff_right h).symm

/-- The path of a place: from the working directory if the place is in it, else from the root. -/
def pathOf (d : Directory) (names : List Text) : Path :=
  if d.base.isPrefixOf names then Text.join ['/'] (names.drop d.base.length)
  else '/' :: Text.join ['/'] names

/-- Whether a path is short enough to open a file by it. -/
def isOpenable (path : Path) : Bool :=
  Text.byteLength path ≤ 4095 && (Text.splitAt '/' path).all (Text.byteLength · ≤ 255)

def readText (d : Directory) (path : Path) : Option Text := do
  guard (isOpenable path)
  match (d.follow path).bind d.find? with
  | some (.text content) => some content
  | _ => none

/-- The files of the tree. A canonical path holds no dots, and is relative where it can be. -/
def files (d : Directory) : Files where
  paths := d.all.map fun e => d.pathOf e.1
  resolve path := (d.follow path).map d.pathOf
  read path := d.readText path
  mem_of_resolve := by
    rintro p q h
    obtain ⟨names, hn, rfl⟩ := Option.map_eq_some_iff.1 h
    have hsome := find?_of_walk (follow_eq_some.1 hn).2
    obtain ⟨e, he, rfl⟩ := List.mem_map.1 (mem_all_of_find? hsome)
    exact List.mem_map_of_mem he

/-- The places that names lead through from the folder at `here`, whatever is there. -/
def placesFrom (here : List Text) : List Text → List (List Text)
  | [] => []
  | name :: names => step here name :: placesFrom (step here name) names

def makeFolder (d : Directory) (names : List Text) : Directory :=
  if (d.find? names).isSome then d else { d with entries := d.entries ++ [(names, .folder)] }

/-- The tree with an entry at a place, whatever was there before. -/
def replacing (d : Directory) (place : List Text) (e : Entry) : Directory :=
  { d with entries := d.entries.filter (·.1 ≠ place) ++ [(place, e)] }

/-- Puts an entry at a path, with the folders on the way that are missing. -/
def put (d : Directory) (path : Path) (e : Entry) : Directory :=
  let places := placesFrom (d.start path) (Text.splitAt '/' path)
  let d := places.dropLast.foldl makeFolder d
  match places.getLast? with
  | none => d
  | some names => if e = .folder then d.makeFolder names else d.replacing names e

/-- A working directory with each entry at its path. -/
def ofEntries (l : List (Path × Entry)) : Directory :=
  l.foldl (fun d e => d.put e.1 e.2) ⟨["work".toList], by decide, []⟩

/-- Puts a file at a path. Its folder has to be there, and no folder may be in its place. -/
def writeText (d : Directory) (path : Path) (content : Text) : Option Directory := do
  guard (isOpenable path)
  let names := Text.splitAt '/' path
  let name ← names.getLast?
  guard (Ordinary name)
  let folder ← d.walk (d.start path) names.dropLast
  guard (d.find? folder = some .folder ∧ d.find? (folder ++ [name]) ≠ some .folder)
  return d.replacing (folder ++ [name]) (.text content)

end Directory

end ComponentSheet.Import
