import ComponentSheet.Proofs.Import.Imports

/-! Putting imports in their places, one line after the other. -/
namespace ComponentSheet.Import

/-- A run over the lines of a file, with the files that were put in before it and after it, and the
lines that it gives. -/
inductive Inlining (files : Files) :
    List Path → Path → List Path → List Line → List Path → List Origin → Prop
  | nil {free visited : List Path} {file : Path} : Inlining files free file visited [] visited []
  | plain {free visited visited₁ : List Path} {file : Path} {number : Nat} {text : Text}
    {lines : List Line} {rest : List Origin}
    (hrest : Inlining files free file visited lines visited₁ rest) :
    Inlining files free file visited (.plain number text :: lines) visited₁
      (⟨text, file, number⟩ :: rest)
  /-- The import leads to a file that was put in before. -/
  | again {free visited visited₁ : List Path} {file path g : Path} {lines : List Line}
    {rest : List Origin} (hr : files.resolve (Path.join file.parent path) = some g) (hf : g ∈ free)
    (hv : g ∈ visited) (hrest : Inlining files free file visited lines visited₁ rest) :
    Inlining files free file visited (.imported path :: lines) visited₁ rest
  /-- The import leads to a file that is put in here. -/
  | enter {free visited visited₁ visited₂ : List Path} {file path g : Path} {text : Text}
    {lines : List Line} {first rest : List Origin}
    (hr : files.resolve (Path.join file.parent path) = some g) (hf : g ∈ free) (hv : g ∉ visited)
    (ht : files.read g = some text)
    (hin : Inlining files (without g free) (Path.join file.parent path) (g :: visited)
      (fileLines text) visited₁ first)
    (hrest : Inlining files free file visited₁ lines visited₂ rest) :
    Inlining files free file visited (.imported path :: lines) visited₂ (first ++ rest)

/-- A run that is broken off. -/
inductive Breaking (files : Files) : List Path → Path → List Path → List Line → LoadError → Prop
  | unresolved {free visited : List Path} {file path : Path} {lines : List Line}
    (hr : files.resolve (Path.join file.parent path) = none) :
    Breaking files free file visited (.imported path :: lines)
      (.unresolved (Path.join file.parent path))
  | recursive {free visited : List Path} {file path g : Path} {lines : List Line}
    (hr : files.resolve (Path.join file.parent path) = some g) (hf : g ∉ free) :
    Breaking files free file visited (.imported path :: lines) (.recursive g)
  | unreadable {free visited : List Path} {file path g : Path} {lines : List Line}
    (hr : files.resolve (Path.join file.parent path) = some g) (ht : files.read g = none) :
    Breaking files free file visited (.imported path :: lines) (.unreadable g)
  /-- It is broken off in the file that an import leads to. -/
  | inside {free visited : List Path} {file path g : Path} {text : Text} {lines : List Line}
    {e : LoadError} (hr : files.resolve (Path.join file.parent path) = some g)
    (ht : files.read g = some text)
    (hin : Breaking files (without g free) (Path.join file.parent path) (g :: visited)
      (fileLines text) e) :
    Breaking files free file visited (.imported path :: lines) e
  /-- It is broken off behind the first line. -/
  | behind {free visited visited₁ : List Path} {file : Path} {line : Line} {lines : List Line}
    {e : LoadError} (hrest : Breaking files free file visited₁ lines e) :
    Breaking files free file visited (line :: lines) e

variable {files : Files} {path g : Path} {free visited : List Path} {text : Text}

theorem load_unresolved (hr : files.resolve path = none) :
    load files free visited path = .error (.unresolved path) := by
  rw [load, hr]

theorem load_recursive (hr : files.resolve path = some g) (hf : g ∉ free) :
    load files free visited path = .error (.recursive g) := by
  rw [load, hr]
  exact dif_neg hf

theorem load_again (hr : files.resolve path = some g) (hf : g ∈ free) (hv : g ∈ visited) :
    load files free visited path = .ok (visited, []) := by
  rw [load, hr]
  exact (dif_pos hf).trans (if_pos hv)

theorem load_unreadable (hr : files.resolve path = some g) (hf : g ∈ free) (hv : g ∉ visited)
    (ht : files.read g = none) : load files free visited path = .error (.unreadable g) := by
  rw [load, hr]
  simp only [hf, hv, ht, dite_true, if_false]

theorem load_enter (hr : files.resolve path = some g) (hf : g ∈ free) (hv : g ∉ visited)
    (ht : files.read g = some text) : load files free visited path =
      inlined (fun v p => load files (without g free) v p) path (g :: visited)
        (fileLines text) := by
  rw [load, hr]
  simp only [hf, hv, ht, dite_true, if_false]

/-- What comes of a run: progress with `P`, or an error with `Q`. -/
def Ends (P : Progress → Prop) (Q : LoadError → Prop) : Except LoadError Progress → Prop
  | .ok r => P r
  | .error e => Q e

theorem Ends.bind {P P' : Progress → Prop} {Q Q' : LoadError → Prop}
    {x : Except LoadError Progress} {k : Progress → Except LoadError Progress} (hx : Ends P Q x)
    (hk : ∀ r, P r → Ends P' Q' (k r)) (he : ∀ e, Q e → Q' e) : Ends P' Q' (x >>= k) := by
  cases x with
  | error e => exact he e hx
  | ok r => exact hk r hx

/-- A run gives what its lines give one after the other, or it is broken off at one of them. -/
theorem ends_inlined (free : List Path) (file : Path) (visited : List Path) (lines : List Line) :
    Ends (fun r => Inlining files free file visited lines r.1 r.2)
      (Breaking files free file visited lines)
      (inlined (fun v p => load files free v p) file visited lines) := by
  -- What is imported is loaded with one file less that is free.
  induction hn : free.length using Nat.strongRecOn generalizing free file visited lines with
  | ind n ih =>
    induction lines generalizing visited with
    | nil => exact .nil
    | cons line lines ihl =>
      cases line with
      | plain number text =>
        rw [inlined]
        exact (ihl visited).bind (fun r h => .plain h) (fun e h => .behind h)
      | imported path =>
        rw [inlined]
        cases hr : files.resolve (Path.join file.parent path) with
        | none =>
          rw [load_unresolved hr]
          exact .unresolved hr
        | some g =>
          by_cases hf : g ∈ free
          · by_cases hv : g ∈ visited
            · rw [load_again hr hf hv]
              exact (ihl visited).bind (fun r h => .again hr hf hv h) (fun e h => .behind h)
            · cases ht : files.read g with
              | none =>
                rw [load_unreadable hr hf hv ht]
                exact .unreadable hr ht
              | some text =>
                have hin := ih _ (hn ▸ length_without_lt hf) (without g free)
                  (Path.join file.parent path) (g :: visited) (fileLines text) rfl
                rw [load_enter hr hf hv ht]
                refine hin.bind (fun r h => ?_) (fun e h => .inside hr ht h)
                exact (ihl r.1).bind (fun r' h' => .enter hr hf hv ht h h') (fun e h => .behind h)
          · rw [load_recursive hr hf]
            exact .recursive hr hf

/-- What comes of the whole: the run of the file that the entry leads to. -/
theorem merge_cases (files : Files) (entry : Path) :
    match merge files entry with
    | .ok m => ∃ g text visited, files.resolve entry = some g ∧ files.read g = some text ∧
        Inlining files (without g files.paths) entry [g] (fileLines text) visited m
    | .error e => (files.resolve entry = none ∧ e = .unresolved entry) ∨
        ∃ g, files.resolve entry = some g ∧ ((files.read g = none ∧ e = .unreadable g) ∨
          ∃ text, files.read g = some text ∧
            Breaking files (without g files.paths) entry [g] (fileLines text) e) := by
  rw [merge]
  cases hr : files.resolve entry with
  | none =>
    rw [load_unresolved hr]
    exact .inl ⟨rfl, rfl⟩
  | some g =>
    have hf : g ∈ files.paths := files.mem_of_resolve hr
    have hv : g ∉ [] := List.not_mem_nil
    cases ht : files.read g with
    | none =>
      rw [load_unreadable hr hf hv ht]
      exact .inr ⟨g, rfl, .inl ⟨ht, rfl⟩⟩
    | some text =>
      have h : Ends _ _ (inlined (fun v p => load files _ v p) _ _ _) :=
        ends_inlined (without g files.paths) entry [g] (fileLines text)
      rw [load_enter hr hf hv ht]
      cases hx : inlined (fun v p => load files (without g files.paths) v p) entry [g]
          (fileLines text) with
      | error e =>
        rw [hx] at h
        exact .inr ⟨g, rfl, .inr ⟨text, ht, h⟩⟩
      | ok r =>
        rw [hx] at h
        exact ⟨g, text, r.1, rfl, ht, h⟩

end ComponentSheet.Import
