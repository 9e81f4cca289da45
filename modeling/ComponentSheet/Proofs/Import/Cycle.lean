import ComponentSheet.Proofs.Import.Linkless
import ComponentSheet.Proofs.Import.Settled

/-! Imports that lead in a circle. -/
namespace ComponentSheet.Import

variable {files : Files} {entry file p q : Path} {free visited : List Path} {f g : Path}
  {lines : List Line} {e : LoadError} {l : List Path}

/-- An import of the file `f` leads to the file `g`, as some way from the entry has it. -/
def Files.Leads (files : Files) (entry f g : Path) : Prop :=
  ∃ p q, files.Reaches entry p ∧ files.resolve p = some f ∧ files.Imports p q ∧
    files.resolve q = some g

/-- Imports lead from a file back to it. -/
def Files.OnCycle (files : Files) (entry f : Path) : Prop :=
  Relation.TransGen (files.Leads entry) f f

/-- All that the entry reaches is there and has a text. -/
def Files.Readable (files : Files) (entry : Path) : Prop :=
  ∀ p, files.Reaches entry p → (files.text? p).isSome

namespace Files

theorem Readable.exists_read (hr : files.Readable entry) (hp : files.Reaches entry p) :
    ∃ f text, files.resolve p = some f ∧ files.read f = some text := by
  obtain ⟨text, h⟩ := Option.isSome_iff_exists.1 (hr p hp)
  obtain ⟨f, hf, ht⟩ := Option.bind_eq_some_iff.1 h
  exact ⟨f, text, hf, ht⟩

theorem leads_of_imports (hr : files.Readable entry) (hp : files.Reaches entry p)
    (hf : files.resolve p = some f) (hpq : Relation.TransGen files.Imports p q)
    (hg : files.resolve q = some g) : Relation.TransGen (files.Leads entry) f g := by
  induction hpq generalizing g with
  | single h => exact .single ⟨p, _, hp, hf, h, hg⟩
  | @tail r q hpr h ih =>
    have hreach : files.Reaches entry r := hp.trans hpr.to_reflTransGen
    obtain ⟨f', _, hf', -⟩ := hr.exists_read hreach
    exact (ih hf').tail ⟨r, q, hreach, hf', h, hg⟩

/-- Whichever path leads to a file, its imports lead on to the same files. -/
theorem exists_imports_of_leads (hl : files.Linkless) (hr : files.Readable entry)
    (h : files.Leads entry f g) (hp : files.resolve p = some f) :
    ∃ q, files.Imports p q ∧ files.resolve q = some g := by
  obtain ⟨p', q', hreach, hp', hstep, hq'⟩ := h
  obtain ⟨g', text', hg', htext'⟩ := hr.exists_read (hreach.tail hstep)
  obtain rfl : g = g' := Option.some.inj (hq'.symm.trans hg')
  obtain ⟨f', text, hf', htext⟩ := hr.exists_read hreach
  obtain rfl : f = f' := Option.some.inj (hp'.symm.trans hf')
  obtain ⟨n, hn⟩ := hstep
  obtain ⟨target, htarget, rfl⟩ := exists_target hp' htext hn
  refine ⟨Path.join p.parent target, ?_, ?_⟩
  · exact imports_of_mem_fileLines hp htext (mem_fileLines_of_importAt? htarget)
  · exact hl target hp' hp (by simp [htext]) hq' (by simp [htext'])

theorem exists_imports_of_transGen (hl : files.Linkless) (hr : files.Readable entry)
    (h : Relation.TransGen (files.Leads entry) f g) (hp : files.resolve p = some f) :
    ∃ q, Relation.TransGen files.Imports p q ∧ files.resolve q = some g := by
  induction h with
  | single h =>
    obtain ⟨q, hpq, hq⟩ := exists_imports_of_leads hl hr h hp
    exact ⟨q, .single hpq, hq⟩
  | tail _ h ih =>
    obtain ⟨r, hpr, hr'⟩ := ih
    obtain ⟨q, hrq, hq⟩ := exists_imports_of_leads hl hr h hr'
    exact ⟨q, hpr.tail hrq, hq⟩

/-- A file on a cycle is reached. -/
theorem OnCycle.exists_reaches (h : files.OnCycle entry f) :
    ∃ p, files.Reaches entry p ∧ files.resolve p = some f := by
  obtain ⟨_, ⟨p, _, hp, hf, -⟩, -⟩ := Relation.TransGen.head'_iff.1 h
  exact ⟨p, hp, hf⟩

end Files

/-- Whether the files at the given paths have texts and import nothing but each other. -/
def Files.isClosed (files : Files) (l : List Path) : Bool :=
  l.all fun p =>
    match files.text? p with
    | none => false
    | some text => (fileLines text).all fun
      | .plain _ _ => true
      | .imported target =>
        l.any fun q => files.resolve (Path.join p.parent target) = files.resolve q

theorem Files.exists_of_isClosed (h : files.isClosed l) (hp : p ∈ l) :
    ∃ f text, files.resolve p = some f ∧ files.read f = some text ∧
      ∀ target, .imported target ∈ fileLines text →
        ∃ q ∈ l, files.resolve (Path.join p.parent target) = files.resolve q := by
  have hall := List.all_eq_true.1 h p hp
  split at hall
  · cases hall
  · rename_i text htext
    obtain ⟨f, hf, ht⟩ := Option.bind_eq_some_iff.1 htext
    refine ⟨f, text, hf, ht, fun target hm => ?_⟩
    have hline := List.all_eq_true.1 hall _ hm
    simpa using hline

/-- Imports do not leave a closed list, whatever paths they make of it. -/
theorem Files.exists_of_reaches (hl : files.Linkless) (h : files.isClosed l) (he : entry ∈ l)
    (hp : files.Reaches entry p) : ∃ r ∈ l, files.resolve p = files.resolve r := by
  induction hp with
  | refl => exact ⟨entry, he, rfl⟩
  | tail _ hstep ih =>
    obtain ⟨r, hr, hpr⟩ := ih
    obtain ⟨f, text, hf, ht, himports⟩ := exists_of_isClosed h hr
    obtain ⟨n, hn⟩ := hstep
    have hpf := hpr.trans hf
    obtain ⟨target, htarget, rfl⟩ := exists_target hpf ht hn
    obtain ⟨q, hq, hrq⟩ := himports target (mem_fileLines_of_importAt? htarget)
    obtain ⟨g, _, hg, hgt, -⟩ := exists_of_isClosed h hq
    have hlead := hl target hf hpf (by simp [ht]) (hrq.trans hg) (by simp [hgt])
    exact ⟨q, hq, hlead.trans hg.symm⟩

theorem Files.readable_of_isClosed (hl : files.Linkless) (h : files.isClosed l) (he : entry ∈ l) :
    files.Readable entry := by
  intro p hp
  obtain ⟨r, hr, hpr⟩ := exists_of_reaches hl h he hp
  obtain ⟨f, text, hf, ht, -⟩ := exists_of_isClosed h hr
  simp [Files.text?, hpr, hf, ht]

/-- A run is broken off only for a file on a cycle. The files that are not free are on the way to
the file whose lines are left. -/
theorem Breaking.onCycle (hr : files.Readable entry) (h : Breaking files free file visited lines e)
    (hfile : files.Reaches entry file)
    (hlines : ∀ target, .imported target ∈ lines →
      files.Imports file (Path.join file.parent target))
    (hway : ∀ c ∈ files.paths, c ∉ free → ∃ p, files.Reaches entry p ∧
      files.resolve p = some c ∧ files.Reaches p file) :
    ∃ c, e = .recursive c ∧ files.OnCycle entry c := by
  induction h with
  | unresolved hnone =>
    obtain ⟨f, _, hf, -⟩ := hr.exists_read (hfile.tail (hlines _ List.mem_cons_self))
    rw [hnone] at hf
    cases hf
  | @recursive _ _ file path g _ hg hf =>
    have hstep := hlines path List.mem_cons_self
    obtain ⟨p, hp, hpg, hpfile⟩ := hway g (files.mem_of_resolve hg) hf
    exact ⟨g, rfl, Files.leads_of_imports hr hp hpg (.tail' hpfile hstep) hg⟩
  | unreadable hg ht =>
    obtain ⟨f, _, hf, htext⟩ := hr.exists_read (hfile.tail (hlines _ List.mem_cons_self))
    rw [Option.some.inj (hf.symm.trans hg), ht] at htext
    cases htext
  | @inside free _ file path g _ _ _ hg ht hin ih =>
    have hstep := hlines path List.mem_cons_self
    refine ih (hfile.tail hstep) (fun target hm => imports_of_mem_fileLines hg ht hm)
      fun c hc hn => ?_
    by_cases hfree : c ∈ free
    · -- The import itself is the last on the way.
      have hcg : c = g := Classical.byContradiction fun hne => hn (mem_without.2 ⟨hfree, hne⟩)
      exact ⟨_, hfile.tail hstep, hcg ▸ hg, .refl⟩
    · obtain ⟨p, hp, hpc, hpfile⟩ := hway c hc hfree
      exact ⟨p, hp, hpc, hpfile.tail hstep⟩
  | behind _ ih => exact ih hfile (fun target hm => hlines target (List.mem_cons_of_mem _ hm)) hway

/-- Loading ends with a text if no file is on a cycle, and with a file on a cycle otherwise. -/
theorem merge_ends (hl : files.Linkless) (hr : files.Readable entry) :
    match merge files entry with
    | .ok _ => ∀ f, ¬ files.OnCycle entry f
    | .error e => ∃ c, e = .recursive c ∧ files.OnCycle entry c := by
  obtain ⟨g, text, hg, ht⟩ := hr.exists_read .refl
  have hrun := merge_cases files entry
  cases hm : merge files entry with
  | ok m =>
    rw [hm] at hrun
    obtain ⟨g', text', visited, hg', ht', hrun⟩ := hrun
    have hs := hrun.settled_whole hl hg' ht'
    intro f hf
    obtain ⟨p, hp, hpf⟩ := hf.exists_reaches
    obtain ⟨f', hvisited, hpf'⟩ := hs.reaches hg' (hrun.grows List.mem_cons_self) hp
    obtain rfl : f = f' := Option.some.inj (hpf.symm.trans hpf')
    obtain ⟨q, hpq, hqf⟩ := Files.exists_imports_of_transGen hl hr hf hpf
    exact hs.acyclic hpf hvisited hpq hqf
  | error e =>
    rw [hm] at hrun
    rcases hrun with ⟨hnone, -⟩ | ⟨g', hg', ⟨hnone, -⟩ | ⟨text', ht', hrun⟩⟩
    · rw [hnone] at hg
      cases hg
    · rw [Option.some.inj (hg'.symm.trans hg), ht] at hnone
      cases hnone
    · refine hrun.onCycle hr .refl (fun target hm => imports_of_mem_fileLines hg' ht' hm)
        fun c hc hn => ⟨entry, .refl, ?_, .refl⟩
      have hcg : c = g' := Classical.byContradiction fun hne => hn (mem_without.2 ⟨hc, hne⟩)
      exact hcg ▸ hg'

/-- If all that is imported can be read, loading is refused exactly for imports that lead in a
circle, for a file on it, and gives a text otherwise. -/
theorem merge_recursive_iff (hl : files.Linkless) (hr : files.Readable entry) :
    ((∃ f, merge files entry = .error (.recursive f)) ↔ ∃ f, files.OnCycle entry f) ∧
      (∀ f, merge files entry = .error (.recursive f) → files.OnCycle entry f) ∧
      ((∀ f, ¬ files.OnCycle entry f) → ∃ m, merge files entry = .ok m) := by
  have hends := merge_ends hl hr
  cases hm : merge files entry with
  | ok m =>
    rw [hm] at hends
    refine ⟨⟨fun h => ?_, fun h => ?_⟩, fun f h => ?_, fun _ => ⟨m, rfl⟩⟩
    · obtain ⟨f, hf⟩ := h
      cases hf
    · obtain ⟨f, hf⟩ := h
      exact absurd hf (hends f)
    · cases h
  | error e =>
    rw [hm] at hends
    obtain ⟨c, rfl, hc⟩ := hends
    refine ⟨⟨fun _ => ⟨c, hc⟩, fun _ => ⟨c, rfl⟩⟩, fun f h => ?_, fun h => absurd hc (h c)⟩
    cases h
    exact hc

theorem merge_recursive_iff_circle :
    let main := "main.css".toList
    let a := "sub/a.css".toList
    let d := Directory.ofEntries [
      (main, .text "@import \"sub/d.css\";\n@import \"sub/a.css\";".toList),
      (a, .text "@import \"../b.css\";\n@import \"d.css\";".toList),
      ("b.css".toList, .text "@import \"sub/../sub/d.css\";\n@import \"./sub/a.css\";".toList),
      ("sub/d.css".toList, .text "d".toList)]
    (d.files.Linkless ∧ d.files.Readable main) ∧
      merge d.files main = .error (.recursive a) ∧ d.files.OnCycle main a := by
  intro main a d
  have hr : d.files.Readable main := by
    refine Files.readable_of_isClosed d.linkless
      (l := [main, a, "b.css".toList, "sub/d.css".toList]) ?_ List.mem_cons_self
    decide +kernel
  have hm : merge d.files main = .error (.recursive a) := by decide +kernel
  exact ⟨⟨d.linkless, hr⟩, hm, (merge_recursive_iff d.linkless hr).2.1 a hm⟩

end ComponentSheet.Import
