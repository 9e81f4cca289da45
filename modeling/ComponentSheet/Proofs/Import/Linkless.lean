import ComponentSheet.Proofs.Import.Imports
import ComponentSheet.Proofs.Import.Written
import ComponentSheet.Proofs.Text.Split

/-! In a tree without links each file has one place, and its imports lead on from there. -/
namespace ComponentSheet.Import

variable {d : Directory} {here names end_ : List Text} {name : Text} {path target : Path}

namespace Path

variable {c : Char} {p s : Path}

/-- A path in a folder is cut at its last slash. -/
theorem exists_parent (p : Path) : ('/' ∉ p ∧ p.parent = []) ∨
    ∃ s name, p = s ++ '/' :: name ∧ '/' ∉ name ∧
      p.parent = (trimBackwards ('/' :: s.reverse)).reverse := by
  have hname : '/' ∉ p.reverse.takeWhile (· ≠ '/') := by
    intro h
    simpa using List.all_eq_true.1 List.all_takeWhile _ h
  have hp : p.reverse.takeWhile (· ≠ '/') ++ p.reverse.dropWhile (· ≠ '/') = p.reverse :=
    List.takeWhile_append_dropWhile
  rw [parent]
  cases hs : p.reverse.dropWhile (· ≠ '/') with
  | nil =>
    rw [hs, List.append_nil] at hp
    rw [hp, List.mem_reverse] at hname
    exact .inl ⟨hname, rfl⟩
  | cons c s =>
    have hc : c = '/' := by
      have h := List.head?_dropWhile_not (· ≠ '/') p.reverse
      rw [hs] at h
      simpa using h
    subst hc
    refine .inr ⟨s.reverse, (p.reverse.takeWhile (· ≠ '/')).reverse, ?_, by simpa using hname, ?_⟩
    · rw [hs] at hp
      have h := congrArg List.reverse hp
      simpa using h.symm
    · rw [List.reverse_reverse]

theorem getLast?_trimBackwards (h : s.getLast? = some c) :
    (trimBackwards s).getLast? = some c := by
  fun_induction trimBackwards s with
  | case1 => exact h
  | case2 p hp ih =>
    have hne : p ≠ [] := fun hn => hp (by rw [hn])
    exact ih (by rwa [List.getLast?_cons_of_ne_nil hne] at h)
  | case3 p ih => exact ih (by rwa [List.getLast?_cons_cons] at h)
  | case4 => exact h

/-- The parent of an absolute path is absolute, and that of a relative one is relative. -/
theorem head?_parent {name : Text} (hp : p = s ++ '/' :: name)
    (hparent : p.parent = (trimBackwards ('/' :: s.reverse)).reverse) :
    p.parent.head? = p.head? := by
  have hlast : ∃ c, ('/' :: s.reverse).getLast? = some c ∧ p.head? = some c := by
    cases s with
    | nil => exact ⟨'/', rfl, by rw [hp]; rfl⟩
    | cons c s =>
      refine ⟨c, ?_, by rw [hp]; rfl⟩
      rw [List.reverse_cons, ← List.cons_append, List.getLast?_concat]
  obtain ⟨c, hc, hfirst⟩ := hlast
  rw [hparent, List.head?_reverse, getLast?_trimBackwards hc, hfirst]

theorem join_absolute {dir : Path} (h : p.head? = some '/') : join dir p = p := by
  obtain ⟨r, rfl⟩ := List.head?_eq_some_iff.1 h
  exact if_pos (.inl rfl)

theorem join_relative {dir : Path} (h : p.head? ≠ some '/') (hdir : dir ≠ []) :
    join dir p = if dir.getLast? = some '/' then dir ++ p else dir ++ '/' :: p := by
  refine if_neg ?_
  rintro (hp | hp)
  · obtain ⟨r, rfl⟩ := List.isPrefixOf_iff_prefix.1 hp
    exact h rfl
  · exact hdir hp

end Path

namespace Directory

theorem walk_append (a b : List Text) :
    d.walk here (a ++ b) = (d.walk here a).bind fun mid => d.walk mid b := by
  induction a generalizing here with
  | nil =>
    rw [List.nil_append, walk]
    cases hf : d.find? here with
    | some e => rfl
    | none => cases b <;> simp [walk, hf]
  | cons name a ih =>
    rw [List.cons_append, walk, walk]
    split
    · exact ih
    · rfl

theorem walk_append_eq_some {a b : List Text} : d.walk here (a ++ b) = some end_ ↔
    ∃ mid, d.walk here a = some mid ∧ d.walk mid b = some end_ := by
  rw [walk_append, Option.bind_eq_some_iff]

theorem walk_stay (hn : name = [] ∨ name = ['.']) :
    d.walk here [name] = some end_ ↔ d.find? here = some .folder ∧ here = end_ := by
  have hstep : step here name = here := if_pos hn
  rw [walk, hstep, walk]
  constructor
  · intro h
    split at h
    · rename_i hf
      rw [hf, Option.map_some, Option.some.injEq] at h
      exact ⟨hf, h⟩
    · cases h
  · rintro ⟨hf, rfl⟩
    simp [hf]

/-- An empty name in front of others changes nothing. -/
theorem walk_nil_cons (hn : names ≠ []) : d.walk here ([] :: names) = d.walk here names := by
  obtain ⟨name, names, rfl⟩ := List.exists_cons_of_ne_nil hn
  have hstep : step here [] = here := if_pos (.inl rfl)
  rw [walk, hstep]
  split
  · rfl
  · rename_i hf
    rw [walk, if_neg hf]

/-- The names on the way from the root to what a path leads to. -/
structure Place (d : Directory) (names : List Text) : Prop where
  ordinary : ∀ name ∈ names, Ordinary name
  folders : ∀ l, l <+: names → l ≠ names → d.find? l = some .folder

namespace Place

theorem base (d : Directory) : d.Place d.base :=
  ⟨d.ordinary_base, fun _ hl _ => find?_on_way hl⟩

theorem of_prefix {l : List Text} (h : d.Place names) (hl : l <+: names) : d.Place l := by
  refine ⟨fun name hm => h.ordinary name (hl.subset hm), fun l' hl' hne => ?_⟩
  refine h.folders l' (hl'.trans hl) fun heq => hne ?_
  exact List.IsPrefix.eq_of_length_le hl' (heq ▸ hl.length_le)

theorem start (d : Directory) (path : Path) : d.Place (d.start path) := by
  rw [Directory.start]
  split
  · exact of_prefix (base d) List.nil_prefix
  · exact base d

theorem folder_dropLast (h : d.Place names) (hne : names ≠ []) :
    d.find? names.dropLast = some .folder := by
  refine h.folders _ (List.dropLast_prefix names) fun heq => ?_
  have hlt := List.length_pos_iff.2 hne
  have hlen := congrArg List.length heq
  rw [List.length_dropLast] at hlen
  omega

/-- One step more. -/
theorem step (h : d.Place here) (hf : d.find? here = some .folder) (hn : '/' ∉ name) :
    d.Place (step here name) := by
  rw [Directory.step]
  split
  · exact h
  · rename_i hstay
    split
    · exact h.of_prefix (List.dropLast_prefix here)
    · rename_i hup
      rw [not_or] at hstay
      refine ⟨fun x hx => ?_, fun l hl hne => ?_⟩
      · rcases List.mem_append.1 hx with hx | hx
        · exact h.ordinary x hx
        · exact List.mem_singleton.1 hx ▸ ⟨hn, hstay.1, hstay.2, hup⟩
      · rcases List.prefix_concat_iff.1 hl with hl | hl
        · exact absurd hl hne
        · by_cases heq : l = here
          · exact heq ▸ hf
          · exact h.folders l hl heq

/-- A walk leads from place to place. -/
theorem walk (h : d.Place here) (hn : ∀ name ∈ names, '/' ∉ name)
    (hw : d.walk here names = some end_) : d.Place end_ := by
  induction names generalizing here with
  | nil =>
    rw [Directory.walk, Option.map_eq_some_iff] at hw
    obtain ⟨_, _, rfl⟩ := hw
    exact h
  | cons name names ih =>
    rw [List.forall_mem_cons] at hn
    rw [Directory.walk] at hw
    split at hw
    · rename_i hf
      exact ih (h.step hf hn.1) hn.2 hw
    · cases hw

/-- The names of a place lead to it. -/
theorem walk_to (h : d.Place (here ++ names)) (hs : (d.find? (here ++ names)).isSome) :
    d.walk here names = some (here ++ names) := by
  induction names generalizing here with
  | nil =>
    rw [List.append_nil] at hs ⊢
    obtain ⟨e, he⟩ := Option.isSome_iff_exists.1 hs
    rw [Directory.walk, he]
    rfl
  | cons name names ih =>
    have hname : Ordinary name := h.ordinary name (by simp)
    have hf : d.find? here = some .folder :=
      h.folders here (List.prefix_append _ _) (by simp)
    rw [List.append_cons] at h hs ⊢
    rw [walk_cons hf, step_of_ordinary hname]
    exact ih h hs

end Place

/-- Ordinary names are found again between the slashes. -/
theorem splitAt_join_of_ordinary (hne : names ≠ []) (h : ∀ name ∈ names, Ordinary name) :
    Text.splitAt '/' (Text.join ['/'] names) = names :=
  Text.splitAt_join hne fun name hm => (h name hm).1

theorem head?_join_of_ordinary (hne : names ≠ []) (h : ∀ name ∈ names, Ordinary name) :
    Text.join ['/'] names ≠ [] ∧ (Text.join ['/'] names).head? ≠ some '/' := by
  have hsplit := splitAt_join_of_ordinary hne h
  have hempty : [] ∉ names := fun hm => (h [] hm).2.1 rfl
  constructor
  · intro hp
    rw [hp] at hsplit
    exact hempty (hsplit ▸ List.mem_singleton_self [])
  · intro hp
    obtain ⟨r, hr⟩ := List.head?_eq_some_iff.1 hp
    rw [hr, Text.splitAt_cons_self] at hsplit
    exact hempty (hsplit ▸ List.mem_cons_self)

theorem place_of_follow (h : d.follow path = some names) : d.Place names :=
  (Place.start d path).walk (fun _ hm => Text.not_mem_of_mem_splitAt hm) (follow_eq_some.1 h).2

/-- A canonical path leads to its place. -/
theorem follow_pathOf (h : d.Place names) (hs : (d.find? names).isSome) (hne : names ≠ d.base) :
    d.follow (d.pathOf names) = some names := by
  rw [pathOf, follow_eq_some]
  split
  · rename_i hp
    obtain ⟨r, rfl⟩ := List.isPrefixOf_iff_prefix.1 hp
    have hr : r ≠ [] := by
      rintro rfl
      exact hne (List.append_nil _)
    have hord : ∀ name ∈ r, Ordinary name :=
      fun name hm => h.ordinary name (List.mem_append_right _ hm)
    obtain ⟨hempty, hhead⟩ := head?_join_of_ordinary hr hord
    rw [List.drop_left, start, if_neg hhead, splitAt_join_of_ordinary hr hord]
    exact ⟨hempty, h.walk_to hs⟩
  · refine ⟨List.cons_ne_nil _ _, ?_⟩
    rw [Text.splitAt_cons_self, start, if_pos List.head?_cons]
    by_cases hroot : names = []
    · subst hroot
      have hf : d.find? [] = some .folder := find?_on_way List.nil_prefix
      rw [walk_nil_cons (Text.splitAt_ne_nil _ _)]
      exact (walk_stay (.inl rfl)).2 ⟨hf, rfl⟩
    · rw [splitAt_join_of_ordinary hroot h.ordinary, walk_nil_cons hroot]
      have hplace : d.Place ([] ++ names) := h
      exact hplace.walk_to hs

/-- What can be read has a place that is no folder. -/
theorem exists_text (h : d.follow path = some names)
    (hr : (d.files.read (d.pathOf names)).isSome) :
    names ≠ d.base ∧ ∃ content, d.find? names = some (.text content) := by
  have hplace := place_of_follow h
  have hs := find?_of_walk (follow_eq_some.1 h).2
  obtain ⟨content, hc⟩ := Option.isSome_iff_exists.1 hr
  have hread : d.readText (d.pathOf names) = some content := hc
  rw [readText, bind_guard_eq_some] at hread
  have hne : names ≠ d.base := by
    -- The working directory itself has the empty path, which leads nowhere.
    rintro rfl
    have hempty : d.pathOf d.base = [] := by simp [pathOf, Text.join]
    rw [hempty] at hread
    cases hread.2
  rw [follow_pathOf hplace hs hne, Option.bind_some] at hread
  obtain ⟨-, hread⟩ := hread
  refine ⟨hne, ?_⟩
  split at hread
  · exact ⟨_, ‹_›⟩
  · cases hread

/-- A path to a file leads through the file's folder. -/
theorem walk_dropLast {l : List Text} (hplace : d.Place here) (hl : ∀ x ∈ l, '/' ∉ x)
    (hw : d.walk here (l ++ [name]) = some names) (ht : d.find? names ≠ some .folder) :
    d.walk here l = some names.dropLast ∧ d.find? names.dropLast = some .folder := by
  obtain ⟨folder, hfolder, hlast⟩ := walk_append_eq_some.1 hw
  obtain ⟨hf, hlast⟩ := of_walk_cons hlast
  rw [walk, Option.map_eq_some_iff] at hlast
  obtain ⟨_, _, rfl⟩ := hlast
  rw [step] at ht ⊢
  split at ht
  · exact absurd hf ht
  · split at ht
    · -- Above a folder there is a folder, and above the root the root.
      by_cases hroot : folder = []
      · exact absurd (by rw [hroot] at hf ⊢; exact hf) ht
      · exact absurd ((hplace.walk hl hfolder).folder_dropLast hroot) ht
    · rename_i hstay hup
      rw [if_neg hstay, if_neg hup, List.dropLast_concat]
      exact ⟨hfolder, hf⟩

/-- Slashes and dots at the end of a path to a folder do not matter. -/
theorem walk_trimBackwards {s : Path} {first : List Text}
    (h : d.walk first (Text.splitAt '/' s.reverse) = some here) :
    d.walk first (Text.splitAt '/' (Path.trimBackwards s).reverse) = some here := by
  fun_induction Path.trimBackwards s with
  | case1 => exact h
  | case2 p _ ih =>
    rw [List.reverse_cons, Text.splitAt_append, walk_append_eq_some] at h
    obtain ⟨mid, hmid, hlast⟩ := h
    obtain ⟨-, rfl⟩ := (walk_stay (.inl rfl)).1 hlast
    exact ih hmid
  | case3 p ih =>
    have hdot : ('.' :: '/' :: p).reverse = p.reverse ++ '/' :: ['.'] := by simp
    rw [hdot, Text.splitAt_append, walk_append_eq_some] at h
    obtain ⟨mid, hmid, hlast⟩ := h
    obtain ⟨hf, rfl⟩ := (walk_stay (.inr rfl)).1 hlast
    refine ih ?_
    rw [List.reverse_cons, Text.splitAt_append, walk_append_eq_some]
    exact ⟨mid, hmid, (walk_stay (.inl rfl)).2 ⟨hf, rfl⟩⟩
  | case4 => exact h

/-- A relative path that is joined to another leads on from where that one leads. -/
theorem follow_join {dir : Path} (hrel : target.head? ≠ some '/') (hdir : dir ≠ []) :
    d.follow (Path.join dir target) =
      (d.walk (d.start dir) (Text.splitAt '/' dir)).bind
        fun mid => d.walk mid (Text.splitAt '/' target) := by
  have hne : Text.splitAt '/' target ≠ [] := Text.splitAt_ne_nil '/' target
  have hstart (s : Path) : d.start (dir ++ s) = d.start dir := by
    obtain ⟨c, r, rfl⟩ := List.exists_cons_of_ne_nil hdir
    rfl
  rw [Path.join_relative hrel hdir]
  split
  · rename_i hlast
    obtain ⟨t, rfl⟩ := List.getLast?_eq_some_iff.1 hlast
    rw [follow, if_neg (by simp), hstart, List.append_assoc, List.singleton_append,
      Text.splitAt_append, Text.splitAt_append, walk_append, walk_append, Option.bind_assoc]
    congr
    funext mid
    rw [← walk_append]
    exact (walk_nil_cons hne).symm
  · rw [follow, if_neg (by simp), hstart, Text.splitAt_append, walk_append]

/-- From a path to a file, a relative path leads on from the file's folder. -/
theorem follow_join_parent (h : d.follow path = some names) (ht : d.find? names ≠ some .folder)
    (hrel : target.head? ≠ some '/') : d.follow (Path.join path.parent target) =
      if path.parent = [] ∧ target = [] then none
      else d.walk names.dropLast (Text.splitAt '/' target) := by
  have hw := (follow_eq_some.1 h).2
  obtain ⟨hslash, hparent⟩ | ⟨s, name, hpath, hslash, hparent⟩ := Path.exists_parent path
  · have hhead : path.head? ≠ some '/' := fun hp => hslash (List.mem_of_head? hp)
    rw [Text.splitAt_of_not_mem hslash, start, if_neg hhead] at hw
    obtain ⟨hfolder, -⟩ := walk_dropLast (l := []) (Place.base d) (by simp) hw ht
    rw [walk, Option.map_eq_some_iff] at hfolder
    obtain ⟨_, _, hfolder⟩ := hfolder
    rw [hparent, ← hfolder, Path.join, if_pos (.inr rfl), follow, start, if_neg hrel]
    simp
  · have hfirst := Path.head?_parent hpath hparent
    have hstart : d.start path.parent = d.start path := by rw [start, start, hfirst]
    have hne : path.parent ≠ [] := by
      intro hn
      rw [hn, hpath] at hfirst
      cases s <;> cases hfirst
    rw [hpath, Text.splitAt_append, Text.splitAt_of_not_mem hslash, ← hpath] at hw
    obtain ⟨hfolder, hf⟩ :=
      walk_dropLast (Place.start d path) (fun _ hm => Text.not_mem_of_mem_splitAt hm) hw ht
    have hwalk : d.walk (d.start path) (Text.splitAt '/' path.parent) = some names.dropLast := by
      rw [hparent]
      refine walk_trimBackwards ?_
      rw [List.reverse_cons, List.reverse_reverse, Text.splitAt_append, walk_append_eq_some]
      exact ⟨_, hfolder, (walk_stay (.inl rfl)).2 ⟨hf, rfl⟩⟩
    rw [follow_join hrel hne, hstart, hwalk, Option.bind_some, if_neg fun hn => hne hn.1]

theorem pathOf_injective {names' : List Text} (h : d.Place names) (h' : d.Place names')
    (hs : (d.find? names).isSome) (hs' : (d.find? names').isSome) (hne : names ≠ d.base)
    (hne' : names' ≠ d.base) (heq : d.pathOf names = d.pathOf names') : names = names' := by
  have hfollow := follow_pathOf h hs hne
  rw [heq, follow_pathOf h' hs' hne'] at hfollow
  exact (Option.some.inj hfollow).symm

/-- In a tree of files and folders there are no links. -/
theorem linkless (d : Directory) : d.files.Linkless := by
  intro p q f g target hp hq hf hg hread
  obtain ⟨names, hfollow, rfl⟩ := Option.map_eq_some_iff.1 hp
  obtain ⟨names', hfollow', heq⟩ := Option.map_eq_some_iff.1 hq
  obtain ⟨there, hthere, rfl⟩ := Option.map_eq_some_iff.1 hg
  obtain ⟨hne, content, ht⟩ := exists_text hfollow hf
  obtain ⟨hne', -⟩ := exists_text hfollow' (heq ▸ hf)
  obtain rfl := pathOf_injective (place_of_follow hfollow') (place_of_follow hfollow)
    (find?_of_walk (follow_eq_some.1 hfollow').2) (find?_of_walk (follow_eq_some.1 hfollow).2)
    hne' hne heq
  obtain ⟨-, content', ht'⟩ := exists_text hthere hread
  have hfile : d.find? names' ≠ some .folder := by simp [ht]
  refine Option.map_eq_some_iff.2 ⟨there, ?_, rfl⟩
  by_cases habs : target.head? = some '/'
  · rwa [Path.join_absolute habs] at hthere ⊢
  rw [follow_join_parent hfollow hfile habs] at hthere
  split at hthere
  · cases hthere
  have htarget : target ≠ [] := by
    -- The folder itself has no text.
    rintro rfl
    obtain ⟨hfolder, rfl⟩ := (walk_stay (.inl rfl)).1 hthere
    simp [hfolder] at ht'
  rw [follow_join_parent hfollow' hfile habs, if_neg fun h => htarget h.2]
  exact hthere

end Directory

end ComponentSheet.Import
