import ComponentSheet.Proofs.Import.Comments
import ComponentSheet.Proofs.Import.Located
import Mathlib.Logic.Relation

/-! The imports of a file, and where they lead to. -/
namespace ComponentSheet.Import

variable {files : Files} {path q f : Path} {l text target : Text} {n : Nat} {ls : List Text}

/-- The path that a line of a text imports. Behind a comment that is open in front of it, it imports
none. -/
def importAt? (text : Text) (number : Nat) : Option Path := do
  let line ← numbered? text.lines number
  if commentOpenAt text number then none else target? line

/-- The lines of a text that import nothing, with their numbers. -/
def keptLines (text : Text) : List (Text × Nat) :=
  (text.lines.zipIdx 1).filter fun l => (importAt? text l.2).isNone

def Line.kept? : Line → Option (Text × Nat)
  | plain number text => some (text, number)
  | imported _ => none

/-- A line of a file as it is told apart. -/
def lineAt (text : Text) (l : Text × Nat) : Line :=
  match importAt? text l.2 with
  | some path => .imported path
  | none => .plain l.2 l.1

theorem lineAt_of {target : Option Path} : importAt? text n = target →
    lineAt text (l, n) =
      match target with
      | some path => .imported path
      | none => .plain n l := by
  rintro rfl
  rfl

theorem linesFrom_eq_map (pre : List Text) (h : text.lines = pre ++ ls) :
    linesFrom (pre.length + 1) (pre.foldl commentOpenAfter false) ls =
      (ls.zipIdx (pre.length + 1)).map (lineAt text) := by
  induction ls generalizing pre with
  | nil => rfl
  | cons l ls ih =>
    have hopen : commentOpenAt text (pre.length + 1) = pre.foldl commentOpenAfter false := by
      simp [commentOpenAt, h]
    have hline : numbered? text.lines (pre.length + 1) = some l := by
      simp [numbered?, h]
    have hrest := ih (pre ++ [l]) (by simp [h])
    simp only [List.length_append, List.length_singleton, List.foldl_append, List.foldl_cons,
      List.foldl_nil] at hrest
    have hat : importAt? text (pre.length + 1) =
        if pre.foldl commentOpenAfter false then none else target? l := by
      simp only [importAt?, hline, hopen, Option.bind_eq_bind, Option.bind_some]
    rw [linesFrom, List.zipIdx_cons, List.map_cons, hrest]
    exact congrArg (· :: _) (lineAt_of hat).symm

theorem fileLines_eq_map (text : Text) : fileLines text = (text.lines.zipIdx 1).map (lineAt text) :=
  linesFrom_eq_map [] rfl

theorem filterMap_fileLines (text : Text) :
    (fileLines text).filterMap Line.kept? = keptLines text := by
  rw [fileLines_eq_map, keptLines, List.filterMap_map, ← List.filterMap_eq_filter]
  congr
  funext l
  simp only [Function.comp, lineAt]
  cases h : importAt? text l.2 <;> simp [Line.kept?, h, Option.guard]

theorem numbered?_fileLines (text : Text) (n : Nat) :
    numbered? (fileLines text) n = (numbered? text.lines n).map fun l => lineAt text (l, n) := by
  cases n with
  | zero => rfl
  | succ n =>
    simp only [numbered?, fileLines_eq_map, List.getElem?_map, List.getElem?_zipIdx, Option.map_map,
      Nat.add_comm 1 n]
    rfl

theorem numbered?_of_importAt? (h : importAt? text n = some path) :
    numbered? (fileLines text) n = some (.imported path) := by
  have hline := h
  rw [importAt?, Option.bind_eq_bind, Option.bind_eq_some_iff] at hline
  obtain ⟨l, hl, -⟩ := hline
  rw [numbered?_fileLines, hl, Option.map_some, lineAt, h]

theorem exists_importAt? (h : .imported path ∈ fileLines text) :
    ∃ n, importAt? text n = some path := by
  rw [fileLines_eq_map, List.mem_map] at h
  obtain ⟨l, -, hl⟩ := h
  rw [lineAt] at hl
  split at hl
  · rename_i p hp
    cases hl
    exact ⟨l.2, hp⟩
  · cases hl

/-- The text of the file that a path leads to. -/
def Files.text? (files : Files) (path : Path) : Option Text :=
  (files.resolve path).bind files.read

/-- The path that a line of the file at a path imports, as it is looked up. -/
def Files.importAt? (files : Files) (path : Path) (number : Nat) : Option Path := do
  let text ← files.text? path
  let target ← Import.importAt? text number
  return Path.join path.parent target

/-- A line of the file at `p` imports `q`. -/
def Files.Imports (files : Files) (p q : Path) : Prop :=
  ∃ number, files.importAt? p number = some q

/-- Imports lead from `p` to `q`. -/
abbrev Files.Reaches (files : Files) : Path → Path → Prop :=
  Relation.ReflTransGen files.Imports

/-- Without symbolic links it does not matter which path led to a file: its imports lead to the same
files. -/
def Files.Linkless (files : Files) : Prop :=
  ∀ ⦃p q f g : Path⦄ (target : Path), files.resolve p = some f → files.resolve q = some f →
    (files.read f).isSome → files.resolve (Path.join p.parent target) = some g →
    (files.read g).isSome → files.resolve (Path.join q.parent target) = some g

theorem exists_target (hr : files.resolve path = some f) (ht : files.read f = some text)
    (h : files.importAt? path n = some q) :
    ∃ target, importAt? text n = some target ∧ q = Path.join path.parent target := by
  have htext : files.text? path = some text := by
    rw [Files.text?, hr]
    exact ht
  rw [Files.importAt?, htext, Option.bind_eq_bind, Option.bind_some] at h
  obtain ⟨target, htarget, hq⟩ := Option.bind_eq_some_iff.1 h
  exact ⟨target, htarget, (Option.some.inj hq).symm⟩

theorem imports_of_mem_fileLines (hr : files.resolve path = some f) (ht : files.read f = some text)
    (hm : .imported target ∈ fileLines text) :
    files.Imports path (Path.join path.parent target) := by
  obtain ⟨n, hn⟩ := exists_importAt? hm
  exact ⟨n, by simp [Files.importAt?, Files.text?, hr, ht, hn]⟩

theorem mem_fileLines_of_importAt? (h : importAt? text n = some target) :
    .imported target ∈ fileLines text :=
  mem_of_numbered? (numbered?_of_importAt? h)

end ComponentSheet.Import
