import ComponentSheet.Import.Directory

/-! What a file that is written to a tree changes there: nothing but itself. -/
namespace ComponentSheet.Import.Directory

variable {d after : Directory} {here folder names place : List Text} {name content : Text}
  {path : Path} {e : Entry}

theorem mem_way : names ∈ d.way ↔ names <+: d.base := by
  rw [way, List.mem_map]
  constructor
  · rintro ⟨n, -, rfl⟩
    exact List.take_prefix n d.base
  · intro h
    refine ⟨names.length, List.mem_range.2 ?_, (List.prefix_iff_eq_take.1 h).symm⟩
    have hle := h.length_le
    omega

/-- On the way to the working directory there are folders. -/
theorem find?_on_way (h : names <+: d.base) : d.find? names = some .folder := by
  have hway : (d.way.map (·, Entry.folder)).find? (·.1 = names) = some (names, .folder) := by
    have hsome : ((d.way.map (·, Entry.folder)).find? (·.1 = names)).isSome := by
      rw [List.find?_isSome]
      exact ⟨(names, .folder), List.mem_map_of_mem (mem_way.2 h), by simp⟩
    obtain ⟨x, hx⟩ := Option.isSome_iff_exists.1 hsome
    obtain ⟨l, -, rfl⟩ := List.mem_map.1 (List.mem_of_find?_eq_some hx)
    obtain rfl : l = names := by simpa using List.find?_some hx
    exact hx
  rw [find?, all, List.find?_append, hway]
  rfl

/-- What is elsewhere is told by the entries. -/
theorem find?_eq_entries (h : ¬ names <+: d.base) :
    d.find? names = (d.entries.find? (·.1 = names)).map (·.2) := by
  have hway : (d.way.map (·, Entry.folder)).find? (·.1 = names) = none := by
    rw [List.find?_eq_none]
    intro x hx
    obtain ⟨l, hl, rfl⟩ := List.mem_map.1 hx
    have hne : l ≠ names := fun heq => h (heq ▸ mem_way.1 hl)
    simpa using hne
  rw [find?, all, List.find?_append, hway, Option.none_or]

theorem find?_replacing (h : ¬ place <+: d.base) :
    (d.replacing place e).find? place = some e := by
  have hnone : (d.entries.filter (·.1 ≠ place)).find? (·.1 = place) = none := by
    rw [List.find?_eq_none]
    intro x hx
    simpa using (List.mem_filter.1 hx).2
  have hbase : ¬ place <+: (d.replacing place e).base := h
  rw [find?_eq_entries hbase, replacing, List.find?_append, hnone]
  simp

theorem find?_replacing_of_ne (h : names ≠ place) :
    (d.replacing place e).find? names = d.find? names := by
  by_cases hn : names <+: d.base
  · have hbase : names <+: (d.replacing place e).base := hn
    rw [find?_on_way hn, find?_on_way hbase]
  · have hbase : ¬ names <+: (d.replacing place e).base := hn
    have hkept : (d.entries.filter (·.1 ≠ place)).find? (·.1 = names) =
        d.entries.find? (·.1 = names) := by
      rw [List.find?_filter]
      congr
      funext x
      by_cases hx : x.1 = names
      · simp [hx, h]
      · simp [hx]
    have hlast : [(place, e)].find? (·.1 = names) = none := by simp [h.symm]
    rw [find?_eq_entries hn, find?_eq_entries hbase, replacing, List.find?_append, hkept, hlast,
      Option.or_none]

theorem walk_cons (hf : d.find? here = some .folder) :
    d.walk here (name :: names) = d.walk (step here name) names :=
  if_pos hf

theorem of_walk_cons (h : d.walk here (name :: names) = some place) :
    d.find? here = some .folder ∧ d.walk (step here name) names = some place := by
  rw [walk] at h
  split at h
  · rename_i hf
    exact ⟨hf, h⟩
  · cases h

theorem step_of_ordinary (h : Ordinary name) : step here name = here ++ [name] := by
  obtain ⟨-, hempty, hdot, hup⟩ := h
  simp [step, hempty, hdot, hup]

/-- A walk sees nothing but folders, and then where it ends. -/
theorem walk_congr (h : ∀ names, d.find? names = some .folder → after.find? names = some .folder)
    (hw : d.walk here names = some folder) (hf : d.find? folder = some .folder) :
    after.walk here names = some folder := by
  induction names generalizing here with
  | nil =>
    obtain ⟨e, -, rfl⟩ := Option.map_eq_some_iff.1 hw
    rw [walk, h _ hf]
    rfl
  | cons name names ih =>
    obtain ⟨hhere, hw⟩ := of_walk_cons hw
    rw [walk_cons (h _ hhere)]
    exact ih hw

/-- A last name leads from the folder that the names before it lead to. -/
theorem walk_concat (hw : d.walk here names = some folder) (hf : d.find? folder = some .folder) :
    d.walk here (names ++ [name]) = d.walk (step folder name) [] := by
  induction names generalizing here with
  | nil =>
    obtain ⟨e, -, rfl⟩ := Option.map_eq_some_iff.1 hw
    exact walk_cons hf
  | cons first names ih =>
    obtain ⟨hhere, hw⟩ := of_walk_cons hw
    rw [List.cons_append, walk_cons hhere, ih hw]

theorem bind_guard_eq_some {α : Type} {p : Prop} [Decidable p] {f : Unit → Option α} {a : α} :
    ((guard p : Option Unit) >>= f) = some a ↔ p ∧ f () = some a := by
  by_cases hp : p
  · have hguard : (guard p : Option Unit) = some () := if_pos hp
    rw [hguard]
    exact (and_iff_right hp).symm
  · have hguard : (guard p : Option Unit) = none := if_neg hp
    rw [hguard]
    exact iff_of_false (by simp) (fun h => hp h.1)

/-- The tree has got a file at a path, in place of what was there, and nothing else has become
of it. -/
structure Gains (d : Directory) (path : Path) (content : Text) (after : Directory) : Prop where
  readText_eq : after.readText path = some content
  base_eq : after.base = d.base
  exists_place : ∃ place, after.follow path = some place ∧
    ∀ names, names ≠ place → after.find? names = d.find? names

/-- The file comes into a folder that is there, in place of no folder. -/
theorem exists_of_writeText (h : d.writeText path content = some after) :
    ∃ names name folder, isOpenable path ∧ Text.splitAt '/' path = names ++ [name] ∧
      Ordinary name ∧ d.walk (d.start path) names = some folder ∧
      d.find? folder = some .folder ∧ d.find? (folder ++ [name]) ≠ some .folder ∧
      after = d.replacing (folder ++ [name]) (.text content) := by
  rw [writeText, bind_guard_eq_some] at h
  obtain ⟨ho, h⟩ := h
  obtain ⟨name, hname, h⟩ := Option.bind_eq_some_iff.1 h
  obtain ⟨hn, h⟩ := bind_guard_eq_some.1 h
  obtain ⟨folder, hw, h⟩ := Option.bind_eq_some_iff.1 h
  obtain ⟨⟨hf, ht⟩, h⟩ := bind_guard_eq_some.1 h
  have hsplit : Text.splitAt '/' path = (Text.splitAt '/' path).dropLast ++ [name] := by
    obtain ⟨names, hs⟩ := List.getLast?_eq_some_iff.1 hname
    rw [hs, List.dropLast_concat]
  exact ⟨_, name, folder, ho, hsplit, hn, hw, hf, ht, (Option.some.inj h).symm⟩

theorem gains_of_writeText (h : d.writeText path content = some after) :
    d.Gains path content after := by
  obtain ⟨names, name, folder, ho, hs, hn, hw, hf, ht, rfl⟩ := exists_of_writeText h
  have hbase : ¬ folder ++ [name] <+: d.base := fun hp => ht (find?_on_way hp)
  have hfolders : ∀ names, d.find? names = some .folder →
      (d.replacing (folder ++ [name]) (.text content)).find? names = some .folder := by
    intro names hnames
    have hplace : names ≠ folder ++ [name] := by
      rintro rfl
      exact ht hnames
    rw [find?_replacing_of_ne hplace, hnames]
  have hpath : path ≠ [] := by
    rintro rfl
    have hlast := congrArg List.getLast? hs
    rw [List.getLast?_concat] at hlast
    exact hn.2.1 (Option.some.inj hlast).symm
  have hfollow : (d.replacing (folder ++ [name]) (.text content)).follow path =
      some (folder ++ [name]) := by
    refine follow_eq_some.2 ⟨hpath, ?_⟩
    have hstart : (d.replacing (folder ++ [name]) (.text content)).start path = d.start path := rfl
    rw [hs, hstart, walk_concat (walk_congr hfolders hw hf) (hfolders _ hf), step_of_ordinary hn,
      walk, find?_replacing hbase]
    rfl
  refine ⟨?_, rfl, folder ++ [name], hfollow, fun names h => find?_replacing_of_ne h⟩
  rw [readText, bind_guard_eq_some]
  refine ⟨ho, ?_⟩
  rw [hfollow, Option.bind_some, find?_replacing hbase]

end ComponentSheet.Import.Directory
