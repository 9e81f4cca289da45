import ComponentSheet.Proofs.Import.Run

/-! The files that are done with: all that they import is done with too, and none of them leads back
to itself. -/
namespace ComponentSheet.Import

variable {files : Files} {file path entry p q : Path} {free visited visited₁ : List Path}
  {f g h : Path} {text target : Text} {number : Nat} {before lines : List Line} {out : List Origin}
  {D D' : Path → Prop}

/-- The imports of the files in `D` lead to files in `D`. None of these is unreadable, and none
leads to itself. -/
structure Files.Settled (files : Files) (D : Path → Prop) : Prop where
  readable : ∀ f, D f → (files.read f).isSome
  closed : ∀ ⦃p q f⦄, files.resolve p = some f → D f → files.Imports p q →
    ∃ g, D g ∧ files.resolve q = some g
  acyclic : ∀ ⦃p q f⦄, files.resolve p = some f → D f → Relation.TransGen files.Imports p q →
    files.resolve q ≠ some f

namespace Files.Settled

theorem empty (hD : ∀ f, ¬ D f) : files.Settled D :=
  ⟨fun f hf => absurd hf (hD f), fun _ _ f _ hf => absurd hf (hD f),
    fun _ _ f _ hf => absurd hf (hD f)⟩

theorem congr (hs : files.Settled D) (hD : ∀ f, D f ↔ D' f) : files.Settled D' := by
  have hDD : D = D' := funext fun f => propext (hD f)
  exact hDD ▸ hs

theorem reaches (hs : files.Settled D) (hr : files.resolve p = some f) (hf : D f)
    (hpq : files.Reaches p q) : ∃ g, D g ∧ files.resolve q = some g := by
  induction hpq with
  | refl => exact ⟨f, hf, hr⟩
  | tail _ hstep ih =>
    obtain ⟨g, hg, hrg⟩ := ih
    exact hs.closed hrg hg hstep

end Files.Settled

/-- The imports among the lines of a file lead to files in `D`. -/
def Files.LeadInto (files : Files) (D : Path → Prop) (file : Path) (lines : List Line) : Prop :=
  ∀ target, .imported target ∈ lines →
    ∃ g, D g ∧ files.resolve (Path.join file.parent target) = some g

namespace Files.LeadInto

theorem nil : files.LeadInto D file [] := by
  intro target hm
  cases hm

theorem plain (h : files.LeadInto D file lines) :
    files.LeadInto D file (.plain number text :: lines) := by
  intro target hm
  exact h target (by simpa using hm)

theorem imported (hr : files.resolve (Path.join file.parent path) = some g) (hg : D g)
    (h : files.LeadInto D file lines) : files.LeadInto D file (.imported path :: lines) := by
  intro target hm
  rcases List.mem_cons.1 hm with hm | hm
  · cases hm
    exact ⟨g, hg, hr⟩
  · exact h target hm

theorem append (h : files.LeadInto D file before) (h' : files.LeadInto D file lines) :
    files.LeadInto D file (before ++ lines) := by
  intro target hm
  rcases List.mem_append.1 hm with hm | hm
  · exact h target hm
  · exact h' target hm

theorem mono (h : files.LeadInto D file lines) (hD : ∀ g, D g → D' g) :
    files.LeadInto D' file lines := by
  intro target hm
  obtain ⟨g, hg, hr⟩ := h target hm
  exact ⟨g, hD g hg, hr⟩

end Files.LeadInto

/-- If the imports of a file are in `D` as one path has it, they are as any other path has it. -/
theorem exists_of_linkless (hl : files.Linkless) (hs : files.Settled D)
    (hr : files.resolve path = some g) (hp : files.resolve p = some g)
    (ht : files.read g = some text)
    (ho : ∃ h, D h ∧ files.resolve (Path.join path.parent target) = some h) :
    ∃ h, D h ∧ files.resolve (Path.join p.parent target) = some h := by
  obtain ⟨h, hh, hrh⟩ := ho
  exact ⟨h, hh, hl target hr hp (by simp [ht]) hrh (hs.readable h hh)⟩

/-- A file whose imports are all in `D` can be added. -/
theorem Files.Settled.insert (hl : files.Linkless) (hs : files.Settled D) (hg : ¬ D g)
    (hr : files.resolve path = some g) (ht : files.read g = some text)
    (himports : files.LeadInto D path (fileLines text)) : files.Settled fun f => D f ∨ f = g := by
  have hclosed : ∀ ⦃p q⦄, files.resolve p = some g → files.Imports p q →
      ∃ h, D h ∧ files.resolve q = some h := by
    rintro p q hp ⟨n, hn⟩
    obtain ⟨target, htarget, rfl⟩ := exists_target hp ht hn
    exact exists_of_linkless hl hs hr hp ht (himports target (mem_fileLines_of_importAt? htarget))
  refine ⟨?_, ?_, ?_⟩
  · rintro f (hf | rfl)
    · exact hs.readable f hf
    · simp [ht]
  · rintro p q f hp (hf | rfl) hpq
    · obtain ⟨h, hh, hq⟩ := hs.closed hp hf hpq
      exact ⟨h, .inl hh, hq⟩
    · obtain ⟨h, hh, hq⟩ := hclosed hp hpq
      exact ⟨h, .inl hh, hq⟩
  · rintro p q f hp (hf | rfl) hpq
    · exact hs.acyclic hp hf hpq
    · -- The first import leads into `D`, and `D` is not left again.
      intro hq
      obtain ⟨p', hstep, hrest⟩ := Relation.TransGen.head'_iff.1 hpq
      obtain ⟨h, hh, hp'⟩ := hclosed hp hstep
      obtain ⟨h', hh', hq'⟩ := hs.reaches hp' hh hrest
      obtain rfl : f = h' := Option.some.inj (hq.symm.trans hq')
      exact hg hh'

/-- The files that were put in and that are not on the way. -/
def Done (free visited : List Path) (f : Path) : Prop :=
  f ∈ visited ∧ f ∈ free

theorem mem_without : f ∈ without g free ↔ f ∈ free ∧ f ≠ g := by
  simp [without]

theorem done_without_cons (hg : g ∉ visited) :
    Done free visited f ↔ Done (without g free) (g :: visited) f := by
  rw [Done, Done, mem_without, List.mem_cons]
  constructor
  · rintro ⟨hv, hf⟩
    exact ⟨.inr hv, hf, fun h => hg (h ▸ hv)⟩
  · rintro ⟨hv, hf, hne⟩
    exact ⟨hv.resolve_left hne, hf⟩

theorem done_insert (hf : g ∈ free) (hv : g ∈ visited) :
    Done (without g free) visited h ∨ h = g ↔ Done free visited h := by
  rw [Done, Done, mem_without]
  constructor
  · rintro (⟨hv, hf, -⟩ | rfl)
    · exact ⟨hv, hf⟩
    · exact ⟨hv, hf⟩
  · rintro ⟨hv, hf⟩
    by_cases hg : h = g
    · exact .inr hg
    · exact .inl ⟨hv, hf, hg⟩

theorem not_done_without : ¬ Done (without g free) visited g :=
  fun h => (mem_without.1 h.2).2 rfl

/-- At first nothing is done with. -/
theorem settled_first : files.Settled (Done (without g free) [g]) := by
  refine .empty ?_
  rintro f ⟨hf, hw⟩
  exact (mem_without.1 hw).2 (List.mem_singleton.1 hf)

namespace Inlining

theorem grows (h : Inlining files free file visited lines visited₁ out) : visited ⊆ visited₁ := by
  induction h with
  | nil => exact fun _ hf => hf
  | plain _ ih => exact ih
  | again _ _ _ _ ih => exact ih
  | enter _ _ _ _ _ _ ih₁ ih₂ => exact fun f hf => ih₂ (ih₁ (List.mem_cons_of_mem _ hf))

/-- Files are put in only if they are not on the way. -/
theorem done_of_new (h : Inlining files free file visited lines visited₁ out) (hg : g ∈ visited₁)
    (hn : g ∉ visited) : Done free visited₁ g := by
  refine ⟨hg, ?_⟩
  induction h with
  | nil => exact absurd hg hn
  | plain _ ih => exact ih hg hn
  | again _ _ _ _ ih => exact ih hg hn
  | @enter free visited visited₁ visited₂ file path g' text lines first rest hr hf hv ht hin hrest
      ih₁ ih₂ =>
    by_cases h₁ : g ∈ visited₁
    · by_cases hg' : g = g'
      · exact hg' ▸ hf
      · exact (mem_without.1 (ih₁ h₁ (by simp [hg', hn]))).1
    · exact ih₂ hg h₁

theorem done_mono (h : Inlining files free file visited lines visited₁ out)
    (hd : Done free visited g) : Done free visited₁ g :=
  ⟨h.grows hd.1, hd.2⟩

/-- At the end of a run, all that its lines import is done with. -/
theorem settled (hl : files.Linkless) (h : Inlining files free file visited lines visited₁ out)
    (hs : files.Settled (Done free visited)) :
    files.Settled (Done free visited₁) ∧ files.LeadInto (Done free visited₁) file lines := by
  induction h with
  | nil => exact ⟨hs, .nil⟩
  | plain _ ih =>
    obtain ⟨hs', himports⟩ := ih hs
    exact ⟨hs', himports.plain⟩
  | again hr hf hv hrest ih =>
    obtain ⟨hs', himports⟩ := ih hs
    exact ⟨hs', himports.imported hr (hrest.done_mono ⟨hv, hf⟩)⟩
  | enter hr hf hv ht hin hrest ih₁ ih₂ =>
    obtain ⟨hs₁, himports₁⟩ := ih₁ (hs.congr fun f => done_without_cons hv)
    have hg : _ ∈ _ := hin.grows List.mem_cons_self
    have hs₁' := (hs₁.insert hl not_done_without hr ht himports₁).congr fun f => done_insert hf hg
    obtain ⟨hs₂, himports₂⟩ := ih₂ hs₁'
    exact ⟨hs₂, himports₂.imported hr (hrest.done_mono ⟨hg, hf⟩)⟩

/-- At the end of it all, every file that was put in is done with. -/
theorem settled_whole (hl : files.Linkless) (hr : files.resolve entry = some g)
    (ht : files.read g = some text)
    (h : Inlining files (without g files.paths) entry [g] (fileLines text) visited out) :
    files.Settled (· ∈ visited) := by
  obtain ⟨hs, himports⟩ := h.settled hl settled_first
  refine (hs.insert hl not_done_without hr ht himports).congr fun f => ?_
  constructor
  · rintro (hf | rfl)
    · exact hf.1
    · exact h.grows List.mem_cons_self
  · intro hf
    by_cases hfg : f = g
    · exact .inr hfg
    · exact .inl (h.done_of_new hf (by simpa using hfg))

end Inlining

end ComponentSheet.Import
