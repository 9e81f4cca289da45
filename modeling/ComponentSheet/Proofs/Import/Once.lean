import ComponentSheet.Proofs.Import.Linkless
import ComponentSheet.Proofs.Import.Settled

/-! Each file is put in once, with all its lines, and behind what it imports. -/
namespace ComponentSheet.Import

variable {files : Files} {file path entry p q : Path} {free visited visited₁ visited₂ : List Path}
  {f g h : Path} {text line : Text} {number : Nat} {lines before : List Line}
  {first rest out : List Origin} {l a b : Origin} {m : Merged} {D : Path → Prop}

/-- The lines that come from a file, with their numbers. -/
def linesOf (files : Files) (g : Path) (out : List Origin) : List (Text × Nat) :=
  (out.filter fun l => files.resolve l.file = some g).map fun l => (l.text, l.number)

theorem linesOf_append :
    linesOf files g (first ++ rest) = linesOf files g first ++ linesOf files g rest := by
  simp [linesOf]

theorem linesOf_cons_self (h : files.resolve l.file = some g) :
    linesOf files g (l :: out) = (l.text, l.number) :: linesOf files g out := by
  simp [linesOf, h]

theorem linesOf_cons_other (h : files.resolve l.file ≠ some g) :
    linesOf files g (l :: out) = linesOf files g out := by
  simp [linesOf, h]

theorem linesOf_ne_nil (hl : l ∈ out) (hr : files.resolve l.file = some g) :
    linesOf files g out ≠ [] := by
  intro h
  rw [linesOf, List.map_eq_nil_iff, List.filter_eq_nil_iff] at h
  exact h l hl (by simpa using hr)

/-- What is put in for an import: the lines of the files that were not put in before. -/
structure Brings (files : Files) (visited visited₁ : List Path) (out : List Origin) : Prop where
  new : ∀ g ∈ visited₁, g ∉ visited →
    ∃ text, files.read g = some text ∧ linesOf files g out = keptLines text
  other : ∀ g, (g ∈ visited₁ → g ∈ visited) → linesOf files g out = []

/-- What a run over the lines of a file gives: in addition, the file's own lines. -/
structure Gives (files : Files) (f : Path) (visited : List Path) (lines : List Line)
    (visited₁ : List Path) (out : List Origin) : Prop where
  own : linesOf files f out = lines.filterMap Line.kept?
  new : ∀ g ∈ visited₁, g ∉ visited →
    ∃ text, files.read g = some text ∧ linesOf files g out = keptLines text
  other : ∀ g, g ≠ f → (g ∈ visited₁ → g ∈ visited) → linesOf files g out = []

theorem Gives.brings (h : Gives files g (g :: visited) (fileLines text) visited₁ out)
    (ht : files.read g = some text) (hv : g ∉ visited) (hg : g ∈ visited₁) :
    Brings files visited visited₁ out := by
  have hown : linesOf files g out = keptLines text := h.own.trans (filterMap_fileLines text)
  refine ⟨fun f hf hn => ?_, fun f hf => ?_⟩
  · by_cases hfg : f = g
    · exact hfg ▸ ⟨text, ht, hown⟩
    · exact h.new f hf (by simp [hfg, hn])
  · have hfg : f ≠ g := fun hfg => hv (hfg ▸ hf (hfg ▸ hg))
    exact h.other f hfg fun hf₁ => List.mem_cons_of_mem _ (hf hf₁)

theorem Brings.of_mem (h : Brings files visited visited₁ out) (hl : l ∈ out)
    (hr : files.resolve l.file = some g) : g ∈ visited₁ ∧ g ∉ visited := by
  have hne := linesOf_ne_nil hl hr
  constructor
  · apply Classical.byContradiction
    intro hn
    exact hne (h.other g fun hg => absurd hg hn)
  · intro hg
    exact hne (h.other g fun _ => hg)

theorem Brings.gives {line : Line} (h₁ : Brings files visited visited₁ first)
    (h₂ : Gives files f visited₁ lines visited₂ rest) (hf : f ∈ visited)
    (h₁₂ : visited ⊆ visited₁) (h₂₃ : visited₁ ⊆ visited₂) (hline : line.kept? = none) :
    Gives files f visited (line :: lines) visited₂ (first ++ rest) := by
  refine ⟨?_, fun g hg hn => ?_, fun g hgf hg => ?_⟩
  · rw [linesOf_append, h₁.other f fun _ => hf, h₂.own, List.filterMap_cons_none hline,
      List.nil_append]
  · rw [linesOf_append]
    by_cases hg₁ : g ∈ visited₁
    · have hgf : g ≠ f := fun hgf => hn (hgf ▸ hf)
      rw [h₂.other g hgf fun _ => hg₁, List.append_nil]
      exact h₁.new g hg₁ hn
    · rw [h₁.other g fun h => absurd h hg₁, List.nil_append]
      exact h₂.new g hg hg₁
  · rw [linesOf_append, h₁.other g fun h => hg (h₂₃ h), h₂.other g hgf fun h => h₁₂ (hg h),
      List.nil_append]

namespace Inlining

theorem gives (h : Inlining files free file visited lines visited₁ out)
    (hr : files.resolve file = some f) (hf : f ∈ visited) :
    Gives files f visited lines visited₁ out := by
  induction h generalizing f with
  | nil => exact ⟨rfl, fun g hg hn => absurd hg hn, fun _ _ _ => rfl⟩
  | plain _ ih =>
    have hrest := ih hr hf
    refine ⟨?_, fun g hg hn => ?_, fun g hgf hg => ?_⟩
    · rw [linesOf_cons_self hr, hrest.own]
      rfl
    · have hgf : f ≠ g := fun hgf => hn (hgf ▸ hf)
      rw [linesOf_cons_other (by simpa [hr] using hgf)]
      exact hrest.new g hg hn
    · rw [linesOf_cons_other (by simpa [hr] using hgf.symm)]
      exact hrest.other g hgf hg
  | again _ _ _ _ ih =>
    have hrest := ih hr hf
    exact ⟨hrest.own, hrest.new, hrest.other⟩
  | enter hr' _ hv ht hin hrest ih₁ ih₂ =>
    have hg := hin.grows List.mem_cons_self
    have hgrows := List.Subset.trans (List.subset_cons_self _ _) hin.grows
    have hfirst := (ih₁ hr' List.mem_cons_self).brings ht hv hg
    exact hfirst.gives (ih₂ hr (hgrows hf)) hf hgrows hrest.grows rfl

theorem exists_resolve (h : Inlining files free file visited lines visited₁ out)
    (hr : files.resolve file = some f) : ∀ l ∈ out, ∃ g, files.resolve l.file = some g := by
  induction h generalizing f with
  | nil => simp
  | plain _ ih =>
    rw [List.forall_mem_cons]
    exact ⟨⟨f, hr⟩, ih hr⟩
  | again _ _ _ _ ih => exact ih hr
  | enter hr' _ _ _ _ _ ih₁ ih₂ =>
    rw [List.forall_mem_append]
    exact ⟨ih₁ hr', ih₂ hr⟩

/-- What is put in was reached. -/
theorem reaches (h : Inlining files free file visited lines visited₁ out)
    (hfile : files.Reaches entry file)
    (hlines : ∀ target, .imported target ∈ lines →
      files.Imports file (Path.join file.parent target)) :
    ∀ l ∈ out, files.Reaches entry l.file := by
  induction h with
  | nil => simp
  | plain _ ih =>
    rw [List.forall_mem_cons]
    exact ⟨hfile, ih hfile fun target hm => hlines target (List.mem_cons_of_mem _ hm)⟩
  | again _ _ _ _ ih => exact ih hfile fun target hm => hlines target (List.mem_cons_of_mem _ hm)
  | enter hr _ _ ht _ _ ih₁ ih₂ =>
    have hstep := hlines _ List.mem_cons_self
    rw [List.forall_mem_append]
    refine ⟨ih₁ (hfile.tail hstep) fun target hm => imports_of_mem_fileLines hr ht hm, ?_⟩
    exact ih₂ hfile fun target hm => hlines target (List.mem_cons_of_mem _ hm)

end Inlining

/-- A line has to stand behind another one: an import above it, in its own file, leads to the file
of the other. -/
def Origin.Follows (files : Files) (b a : Origin) : Prop :=
  ∃ p number q r, files.resolve b.file = files.resolve p ∧ files.importAt? p number = some q ∧
    number < b.number ∧ files.Reaches q r ∧ files.resolve r = files.resolve a.file

/-- What a line of a file in `D` has to stand behind is in another file of `D`. -/
theorem Files.Settled.of_follows (hs : files.Settled D) (hr : files.resolve b.file = some f)
    (hf : D f) (h : b.Follows files a) : ∃ g, D g ∧ files.resolve a.file = some g ∧ g ≠ f := by
  obtain ⟨p, number, q, r, hp, hq, -, hqr, hra⟩ := h
  have hp' : files.resolve p = some f := hp.symm.trans hr
  have hstep : files.Imports p q := ⟨number, hq⟩
  obtain ⟨g', hg', hrq⟩ := hs.closed hp' hf hstep
  obtain ⟨g, hg, hrr⟩ := hs.reaches hrq hg' hqr
  refine ⟨g, hg, hra ▸ hrr, ?_⟩
  rintro rfl
  exact hs.acyclic hp' hf (.head' hstep hqr) hrr

/-- The imports above a line are among the lines in front of it. -/
theorem mem_before_of_importAt? {k : Nat} {target : Path}
    (hsplit : fileLines text = before ++ .plain number line :: lines) (hk : k < number)
    (himport : importAt? text k = some target) : .imported target ∈ before := by
  have hline : numbered? (fileLines text) (before.length + 1) = some (.plain number line) := by
    simp [numbered?, hsplit]
  have hnumber : number = before.length + 1 := by
    rw [numbered?_fileLines, Option.map_eq_some_iff] at hline
    obtain ⟨t, -, ht⟩ := hline
    rw [lineAt] at ht
    split at ht
    · cases ht
    · cases ht
      rfl
  have hm := numbered?_of_importAt? himport
  cases k with
  | zero => cases hm
  | succ k =>
    rw [numbered?, hsplit, List.getElem?_append_left (by omega)] at hm
    exact List.mem_of_getElem? hm

/-- A line of the file that is being read has to stand behind files that are done with. -/
theorem exists_done_of_follows (hl : files.Linkless) (hs : files.Settled D)
    (hr : files.resolve file = some f) (ht : files.read f = some text)
    (hbefore : files.LeadInto D file before)
    (hsplit : fileLines text = before ++ .plain number line :: lines)
    (h : Origin.Follows files ⟨line, file, number⟩ a) :
    ∃ g, D g ∧ files.resolve a.file = some g := by
  obtain ⟨p, k, q, r, hp, hq, hk, hqr, hra⟩ := h
  have hp' : files.resolve p = some f := hp.symm.trans hr
  obtain ⟨target, htarget, rfl⟩ := exists_target hp' ht hq
  have hm := mem_before_of_importAt? hsplit hk htarget
  obtain ⟨g', hg', hrq⟩ := exists_of_linkless hl hs hr hp' ht (hbefore target hm)
  obtain ⟨g, hg, hrr⟩ := hs.reaches hrq hg' hqr
  exact ⟨g, hg, hra ▸ hrr⟩

/-- No line stands in front of one that it has to stand behind. -/
def Ordered (files : Files) (out : List Origin) : Prop :=
  out.Pairwise fun b a => ¬ b.Follows files a

theorem Inlining.ordered (hl : files.Linkless)
    (h : Inlining files free file visited lines visited₁ out)
    (hs : files.Settled (Done free visited)) (hr : files.resolve file = some f) (hf : f ∈ visited)
    (hfree : f ∉ free) (ht : files.read f = some text) (hsplit : fileLines text = before ++ lines)
    (hbefore : files.LeadInto (Done free visited) file before) : Ordered files out := by
  induction h generalizing f text before with
  | nil => exact .nil
  | @plain free visited visited₁ file number line lines rest hrest ih =>
    have hsplit' : fileLines text = (before ++ [.plain number line]) ++ lines := by simp [hsplit]
    have hbefore' : files.LeadInto _ file (before ++ [.plain number line]) :=
      hbefore.append (.plain .nil)
    refine .cons (fun a ha hfollows => ?_) (ih hs hr hf hfree ht hsplit' hbefore')
    obtain ⟨g, hg, hra⟩ := exists_done_of_follows hl hs hr ht hbefore hsplit hfollows
    have hgf : g ≠ f := fun hgf => hfree (hgf ▸ hg.2)
    exact linesOf_ne_nil ha hra ((hrest.gives hr hf).other g hgf fun _ => hg.1)
  | @again free visited visited₁ file path g lines rest hr' hf' hv hrest ih =>
    have hsplit' : fileLines text = (before ++ [.imported path]) ++ lines := by simp [hsplit]
    exact ih hs hr hf hfree ht hsplit' (hbefore.append (.imported hr' ⟨hv, hf'⟩ .nil))
  | @enter free visited visited₁ visited₂ file path g t lines first rest hr' hf' hv ht' hin hrest
      ih₁ ih₂ =>
    have himport : Inlining files free file visited [.imported path] visited₁ (first ++ []) :=
      .enter hr' hf' hv ht' hin .nil
    have hs' := hs.congr fun f => done_without_cons hv
    have hs₁ := (himport.settled hl hs).1
    have hg : g ∈ visited₁ := hin.grows List.mem_cons_self
    have hf₁ : f ∈ visited₁ := himport.grows hf
    have hfirst : Ordered files first :=
      ih₁ hs' hr' List.mem_cons_self (fun h => (mem_without.1 h).2 rfl) ht' (List.nil_append _).symm
        .nil
    have hrest' : Ordered files rest := by
      have hsplit' : fileLines text = (before ++ [.imported path]) ++ lines := by simp [hsplit]
      have hbefore₁ := hbefore.mono fun _ => himport.done_mono
      exact ih₂ hs₁ hr hf₁ hfree ht hsplit' (hbefore₁.append (.imported hr' ⟨hg, hf'⟩ .nil))
    refine List.pairwise_append.2 ⟨hfirst, hrest', fun b hb a ha hfollows => ?_⟩
    -- What the import brings is done with, and so is all that it imports in turn.
    obtain ⟨h, hrb⟩ := hin.exists_resolve hr' b hb
    have hnew := ((hin.gives hr' List.mem_cons_self).brings ht' hv hg).of_mem hb hrb
    have hd := himport.done_of_new hnew.1 hnew.2
    obtain ⟨g', hg', hra, -⟩ := hs₁.of_follows hrb hd hfollows
    have hgf : g' ≠ f := fun hgf => hfree (hgf ▸ hg'.2)
    exact linesOf_ne_nil ha hra ((hrest.gives hr hf₁).other g' hgf fun _ => hg'.1)

theorem count_text (h : ∀ l ∈ m, '\n' ∉ l.text) : m.text.count '\n' = m.length := by
  induction m with
  | nil => rfl
  | cons l m ih =>
    rw [List.forall_mem_cons] at h
    have htext : Merged.text (l :: m) = l.text ++ '\n' :: Merged.text m := by
      simp [Merged.text]
    rw [htext, List.count_append, List.count_eq_zero.2 h.1, List.count_cons_self, ih h.2,
      List.length_cons, Nat.zero_add]

/-- A merged text holds each file that the entry reaches exactly once, line by line. -/
structure Merged.Complete (files : Files) (entry : Path) (m : Merged) : Prop where
  feeds : m.text.count '\n' = m.length
  lines : ∀ (i : Nat) (l : Origin), m[i]? = some l → (Text.splitAt '\n' m.text)[i]? = some l.text ∧
    files.line? l.file l.number = some l.text
  /-- The lines of a file that is reached are all there once and in order, but for its imports. -/
  once : ∀ p, files.Reaches entry p → ∃ f text, files.resolve p = some f ∧
    files.read f = some text ∧ linesOf files f m = keptLines text
  only : ∀ l : Origin, l ∈ m → files.Reaches entry l.file
  /-- What an import leads to stands in front of all that is below the import in its file. -/
  ordered : ∀ p number q r, files.Reaches entry p → files.importAt? p number = some q →
    files.Reaches q r → ∀ (i j : Nat) (a b : Origin), m[i]? = some a → m[j]? = some b →
      files.resolve a.file = files.resolve r → files.resolve b.file = files.resolve p →
      number < b.number → i < j

/-- In a merged sheet each file stands once, complete and in the place of its first import. -/
theorem merge_complete (hl : files.Linkless) (h : merge files entry = .ok m) :
    Merged.Complete files entry m := by
  have hgenuine := genuine_of_merge h
  have hone : ∀ l ∈ m, '\n' ∉ l.text := fun l hm => (hgenuine l hm).one
  have hrun := merge_cases files entry
  rw [h] at hrun
  obtain ⟨g, text, visited, hr, ht, hrun⟩ := hrun
  have hg : g ∈ visited := hrun.grows List.mem_cons_self
  have hs := hrun.settled_whole hl hr ht
  have hbrings := (hrun.gives hr List.mem_cons_self).brings ht List.not_mem_nil hg
  refine ⟨count_text hone, fun i l hi => ⟨?_, ?_⟩, fun p hp => ?_, ?_, ?_⟩
  · have hlt : i < m.length := (List.getElem?_eq_some_iff.1 hi).1
    rw [splitAt_text hone, List.getElem?_append_left (by simpa using hlt), List.getElem?_map, hi]
    rfl
  · exact (hgenuine l (List.mem_of_getElem? hi)).line
  · obtain ⟨f, hf, hrp⟩ := hs.reaches hr hg hp
    obtain ⟨t, htf, hlines⟩ := hbrings.new f hf List.not_mem_nil
    exact ⟨f, t, hrp, htf, hlines⟩
  · exact hrun.reaches .refl fun target hm => imports_of_mem_fileLines hr ht hm
  · intro p number q r hp hq hqr i j a b hi hj ha hb hlt
    have hfollows : b.Follows files a := ⟨p, number, q, r, hb, hq, hlt, hqr, ha.symm⟩
    have hordered : Ordered files m :=
      hrun.ordered hl settled_first hr List.mem_cons_self (fun h => (mem_without.1 h).2 rfl) ht
        (List.nil_append _).symm .nil
    obtain ⟨hi', rfl⟩ := List.getElem?_eq_some_iff.1 hi
    obtain ⟨hj', rfl⟩ := List.getElem?_eq_some_iff.1 hj
    obtain ⟨f, hf, hrp⟩ := hs.reaches hr hg hp
    rcases Nat.lt_trichotomy i j with hij | rfl | hij
    · exact hij
    · obtain ⟨f', -, hrf', hne⟩ := hs.of_follows (hb.trans hrp) hf hfollows
      exact absurd (Option.some.inj (hrf'.symm.trans (hb.trans hrp))) hne
    · exact absurd hfollows (List.pairwise_iff_getElem.1 hordered j i hj' hi' hij)

theorem merge_complete_diamond :
    let main := "main.css".toList
    let d := Directory.ofEntries [
      (main, .text ("a\r\n@import \"./x.css\";\n/*\n@import \"gone.css\";\n*/ b\n" ++
        "@import 'sub/y.css';\n@import \"sub/../x.css\";\nc").toList),
      ("x.css".toList, .text "@import \"sub/z.css\";\nx\n".toList),
      ("sub/y.css".toList, .text "@import \"../x.css\";\n@import \"z.css\";\ny\r\n".toList),
      ("sub/z.css".toList, .text "z".toList)]
    let m : Merged := [⟨"a".toList, main, 1⟩, ⟨"z".toList, "./sub/z.css".toList, 1⟩,
      ⟨"x".toList, "./x.css".toList, 2⟩, ⟨"/*".toList, main, 3⟩,
      ⟨"@import \"gone.css\";".toList, main, 4⟩, ⟨"*/ b".toList, main, 5⟩,
      ⟨"y".toList, "sub/y.css".toList, 3⟩, ⟨"c".toList, main, 8⟩]
    (d.files.Linkless ∧ merge d.files main = .ok m) ∧ Merged.Complete d.files main m := by
  intro main d m
  have hm : merge d.files main = .ok m := by decide +kernel
  exact ⟨⟨d.linkless, hm⟩, merge_complete d.linkless hm⟩

end ComponentSheet.Import
