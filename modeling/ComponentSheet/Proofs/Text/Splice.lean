import ComponentSheet.Proofs.Text.Slice
import ComponentSheet.Text.Splice
import Mathlib.Data.List.Nodup

/-! Edits of a text made all at once and one at a time, and what they leave as it is. -/
namespace ComponentSheet.Text

variable {s t u v w : Text} {i n : Nat} {a b e : Edit} {edits es fs : List Edit}

/-- The range of the edit lies in the text, and both its ends lie between characters. -/
def Edit.LiesIn (s : Text) (e : Edit) : Prop :=
  ∃ t, Slice s e.start e.stop t

instance (s : Text) (e : Edit) : Decidable (e.LiesIn s) :=
  decidable_of_iff ((slice? s e.start e.stop).isSome) (by
    simp only [Option.isSome_iff_exists, slice?_eq_some_iff, Edit.LiesIn])

/-- One of the ranges ends where the other one starts, or in front of there. So ranges that touch
are apart, and an empty range inside of another one is not apart from it. -/
def Edit.Apart (a b : Edit) : Prop :=
  a.stop ≤ b.start ∨ b.stop ≤ a.start

instance (a b : Edit) : Decidable (a.Apart b) :=
  inferInstanceAs (Decidable (_ ∨ _))

/-- The ranges of the edits lie in the text, are disjoint and start at different places, and none of
them is an empty range inside of another one. -/
structure Separate (s : Text) (edits : List Edit) : Prop where
  liesIn : ∀ e ∈ edits, e.LiesIn s
  apart : edits.Pairwise Edit.Apart
  starts : (edits.map Edit.start).Nodup

instance (s : Text) (edits : List Edit) : Decidable (Separate s edits) :=
  decidable_of_iff ((∀ e ∈ edits, e.LiesIn s) ∧ edits.Pairwise Edit.Apart ∧
    (edits.map Edit.start).Nodup) ⟨fun h => ⟨h.1, h.2.1, h.2.2⟩, fun h => ⟨h.1, h.2, h.3⟩⟩

theorem Edit.LiesIn.start_le_stop (h : e.LiesIn s) : e.start ≤ e.stop := by
  obtain ⟨t, u, v, -, -, hj⟩ := h
  omega

theorem Edit.Apart.symm (h : a.Apart b) : b.Apart a :=
  Or.symm h

theorem Separate.perm (h : Separate s edits) (hp : es.Perm edits) : Separate s es where
  liesIn := fun e he => h.liesIn e (hp.mem_iff.1 he)
  apart := h.apart.perm hp.symm Edit.Apart.symm
  starts := (hp.map Edit.start).nodup_iff.2 h.starts

def leftToRight (edits : List Edit) : List Edit :=
  edits.mergeSort fun a b => a.start ≤ b.start

def rightToLeft (edits : List Edit) : List Edit :=
  edits.mergeSort fun a b => b.start ≤ a.start

theorem leftToRight_perm (edits : List Edit) : (leftToRight edits).Perm edits :=
  List.mergeSort_perm _ _

theorem pairwise_leftToRight (edits : List Edit) :
    (leftToRight edits).Pairwise fun a b => a.start ≤ b.start := by
  refine List.Pairwise.imp of_decide_eq_true (List.pairwise_mergeSort ?_ ?_ edits)
  · simp only [decide_eq_true_eq]
    exact fun _ _ _ => Nat.le_trans
  · simp only [Bool.or_eq_true, decide_eq_true_eq]
    exact fun _ _ => Nat.le_total _ _

theorem pairwise_rightToLeft (edits : List Edit) :
    (rightToLeft edits).Pairwise fun a b => b.start ≤ a.start := by
  refine List.Pairwise.imp of_decide_eq_true (List.pairwise_mergeSort ?_ ?_ edits)
  · simp only [decide_eq_true_eq]
    exact fun _ _ _ hab hbc => Nat.le_trans hbc hab
  · simp only [Bool.or_eq_true, decide_eq_true_eq]
    exact fun _ _ => Nat.le_total _ _

/-- Edits that start at different places have one order from left to right. -/
theorem leftToRight_eq (hs : (edits.map Edit.start).Nodup) (hp : es.Perm edits)
    (ho : es.Pairwise fun a b => a.start ≤ b.start) : leftToRight edits = es := by
  refine List.Perm.eq_of_pairwise (fun a b ha hb hab hba => ?_) (pairwise_leftToRight edits) ho
    ((leftToRight_perm edits).trans hp.symm)
  -- Two of the edits that start together are one edit.
  exact List.inj_on_of_nodup_map hs ((leftToRight_perm edits).mem_iff.1 ha) (hp.mem_iff.1 hb)
    (Nat.le_antisymm hab hba)

theorem leftToRight_eq_of_perm (hs : (edits.map Edit.start).Nodup) (hp : es.Perm edits) :
    leftToRight es = leftToRight edits :=
  (leftToRight_eq hs ((leftToRight_perm es).trans hp) (pairwise_leftToRight es)).symm

theorem leftToRight_eq_reverse (hs : (edits.map Edit.start).Nodup) :
    leftToRight edits = (rightToLeft edits).reverse :=
  leftToRight_eq hs ((List.reverse_perm _).trans (List.mergeSort_perm _ _))
    (List.pairwise_reverse.2 (pairwise_rightToLeft edits))

/-- From left to right, each range of separate edits ends in front of the next ones. -/
theorem Separate.ordered (h : Separate s edits) :
    (leftToRight edits).Pairwise fun a b => a.stop ≤ b.start := by
  have hl := h.perm (leftToRight_perm edits)
  have hstarts := List.pairwise_map.1 hl.starts
  refine ((pairwise_leftToRight edits).and (hstarts.and hl.apart)).imp_of_mem fun _ hb hab => ?_
  obtain ⟨hle, hne, hapart⟩ := hab
  have hb' := (hl.liesIn _ hb).start_le_stop
  rcases hapart with hapart | hapart
  · exact hapart
  · -- Both would start where the second one ends.
    omega

/-- The text `s`, which stands behind `i` bytes, reads `t` when the edits are made. They go from
left to right; what stands between two ranges is in `t` what it is in `s`. -/
inductive Spliced : Nat → Text → List Edit → Text → Prop
  | rest (i : Nat) (s : Text) : Spliced i s [] s
  | edit {i : Nat} {kept covered s t : Text} {e : Edit} {es : List Edit}
      (hstart : i + kept.byteLength = e.start) (hstop : e.start + covered.byteLength = e.stop)
      (h : Spliced e.stop s es t) :
      Spliced i (kept ++ covered ++ s) (e :: es) (kept ++ e.replacement ++ t)

theorem Spliced.spliceFrom_eq (h : Spliced i s es t) : spliceFrom i s es = t := by
  induction h with
  | rest => rfl
  | @edit i kept covered s t e es hstart hstop _ ih =>
    have hkept : splitBytes (e.start - i) (kept ++ covered ++ s) = (kept, covered ++ s) := by
      rw [← hstart, Nat.add_sub_cancel_left, List.append_assoc, splitBytes_byteLength]
    have hcovered : splitBytes (e.stop - e.start) (covered ++ s) = (covered, s) := by
      rw [← hstop, Nat.add_sub_cancel_left, splitBytes_byteLength]
    simp only [spliceFrom, hkept, hcovered, ih]

theorem Spliced.ordered (h : Spliced i s es t) :
    (∀ e ∈ es, i ≤ e.start) ∧ es.Pairwise fun a b => a.stop ≤ b.start := by
  induction h with
  | rest => exact ⟨by simp, .nil⟩
  | edit hstart hstop _ ih =>
    obtain ⟨hes, ho⟩ := ih
    refine ⟨List.forall_mem_cons.2 ⟨by omega, fun f hf => ?_⟩, List.pairwise_cons.2 ⟨hes, ho⟩⟩
    have hf := hes f hf
    omega

/-- Ranges of the text `u ++ s` that lie behind `u` and follow one another have an edited text. -/
theorem exists_spliced (hl : ∀ e ∈ es, e.LiesIn (u ++ s)) (hu : ∀ e ∈ es, u.byteLength ≤ e.start)
    (ho : es.Pairwise fun a b => a.stop ≤ b.start) : ∃ t, Spliced u.byteLength s es t := by
  induction es generalizing u s with
  | nil => exact ⟨s, .rest _ _⟩
  | cons e es ih =>
    rw [List.forall_mem_cons] at hl hu
    rw [List.pairwise_cons] at ho
    obtain ⟨⟨covered, v, w, hs, hstart, hstop⟩, hl⟩ := hl
    rw [List.append_assoc] at hs
    -- What stands in front of the range is `u` and then what is kept.
    obtain ⟨kept, rfl, rfl⟩ := exists_eq_append_of_byteLength_le hs (hstart ▸ hu.1)
    have hnext : (u ++ kept ++ covered).byteLength = e.stop := by
      rw [byteLength_append, hstart, hstop]
    rw [← List.append_assoc, ← List.append_assoc] at hl
    obtain ⟨t, ht⟩ := ih hl (fun f hf => hnext ▸ ho.1 f hf) ho.2
    rw [byteLength_append] at hstart
    rw [hnext] at ht
    rw [← List.append_assoc]
    exact ⟨_, .edit hstart hstop ht⟩

theorem Separate.spliced (h : Separate s edits) :
    Spliced 0 s (leftToRight edits) (splice s edits) := by
  have hl := h.perm (leftToRight_perm edits)
  obtain ⟨t, ht⟩ := exists_spliced (u := []) hl.liesIn (fun e _ => Nat.zero_le e.start) h.ordered
  have hsplice : splice s edits = t := ht.spliceFrom_eq
  rw [hsplice]
  exact ht

theorem Spliced.kept (h : Spliced (i + u.byteLength) v es t) : Spliced i (u ++ v) es (u ++ t) := by
  cases h with
  | rest => exact .rest _ _
  | edit hstart hstop h =>
    rw [Nat.add_assoc, ← byteLength_append] at hstart
    have he := Spliced.edit hstart hstop h
    simp only [List.append_assoc] at he ⊢
    exact he

theorem Spliced.append (h : Spliced i u es t) (h' : Spliced (i + u.byteLength) v fs w) :
    Spliced i (u ++ v) (es ++ fs) (t ++ w) := by
  induction h with
  | rest => exact h'.kept
  | edit hstart hstop _ ih =>
    rw [byteLength_append, byteLength_append, ← Nat.add_assoc, ← Nat.add_assoc, hstart, hstop] at h'
    have he := Spliced.edit hstart hstop (ih h')
    simp only [List.append_assoc, List.cons_append] at he ⊢
    exact he

/-- The text put together from its stretches between the ranges, each taken by its ends: from the
end of the last range, which is `cursor`, to the start of the next one. There is no result if one of
the stretches is not there. -/
def spliceFrom? (s : Text) (cursor : Nat) : List Edit → Option Text
  | [] => slice? s cursor s.byteLength
  | e :: es => do
    let kept ← slice? s cursor e.start
    let rest ← spliceFrom? s e.stop es
    return kept ++ e.replacement ++ rest

def splice? (s : Text) (edits : List Edit) : Option Text :=
  spliceFrom? s 0 (leftToRight edits)

theorem Spliced.spliceFrom?_eq (h : Spliced i s es t) (hu : u.byteLength = i) :
    spliceFrom? (u ++ s) i es = some t := by
  induction h generalizing u with
  | rest i s =>
    refine slice?_eq_some_iff.2 ⟨u, [], ?_, hu, ?_⟩
    · rw [List.append_nil]
    · rw [byteLength_append, hu]
  | @edit i kept covered s t e es hstart hstop _ ih =>
    have hkept : slice? (u ++ (kept ++ covered ++ s)) i e.start = some kept :=
      slice?_eq_some_iff.2 ⟨u, covered ++ s, by simp, hu, hstart⟩
    have hnext : (u ++ kept ++ covered).byteLength = e.stop := by
      rw [byteLength_append, byteLength_append, hu, hstart, hstop]
    have hrest := ih hnext
    simp only [List.append_assoc] at hrest hkept
    simp [spliceFrom?, hkept, hrest]

/-- If all stretches are there, the ranges part the text behind the cursor. -/
theorem exists_spliced_of_spliceFrom? (h : spliceFrom? w i es = some t)
    (hle : ∀ e ∈ es, e.start ≤ e.stop) :
    ∃ u s, w = u ++ s ∧ u.byteLength = i ∧ Spliced i s es t := by
  induction es generalizing i t with
  | nil =>
    obtain ⟨u, v, hw, hu, hv⟩ := slice?_eq_some_iff.1 h
    rw [← hu, ← byteLength_append, hw] at hv
    obtain rfl := eq_nil_of_byteLength_append_le (Nat.le_of_eq hv.symm)
    rw [List.append_nil] at hw
    exact ⟨u, t, hw, hu, .rest _ _⟩
  | cons e es ih =>
    simp only [spliceFrom?, Option.bind_eq_bind, Option.bind_eq_some_iff] at h
    obtain ⟨kept, hkept, rest, hrest, ht⟩ := h
    rw [List.forall_mem_cons] at hle
    obtain ⟨v, s, hw, hv, hes⟩ := ih hrest hle.2
    obtain ⟨u, x, rfl, hu, hstart⟩ := slice?_eq_some_iff.1 hkept
    have hfront : (u ++ kept).byteLength = e.start := by
      rw [byteLength_append, hu, hstart]
    obtain ⟨covered, rfl, rfl⟩ :=
      exists_eq_append_of_byteLength_le hw (by rw [hfront, hv]; exact hle.1)
    rw [byteLength_append, hfront] at hv
    cases ht
    exact ⟨u, kept ++ covered ++ s, by simp, hu, .edit hstart hv hes⟩

theorem Separate.splice?_eq (h : Separate s edits) : splice? s edits = some (splice s edits) :=
  h.spliced.spliceFrom?_eq (u := []) rfl

/-- If all stretches are there, the splice puts them together. Here edits may start together. -/
theorem splice_eq_of_splice? (h : splice? s edits = some t) (hle : ∀ e ∈ edits, e.start ≤ e.stop) :
    splice s edits = t := by
  obtain ⟨u, v, rfl, hu, hes⟩ := exists_spliced_of_spliceFrom? h fun e he =>
    hle e ((leftToRight_perm edits).mem_iff.1 he)
  obtain rfl := eq_nil_of_byteLength_append_le (u := []) (Nat.le_of_eq hu)
  exact hes.spliceFrom_eq

/-- Of edits that start at different places in the text, all stretches between them are there
exactly if the ranges are disjoint. -/
theorem isSome_splice?_iff (hl : ∀ e ∈ edits, e.LiesIn s) (hs : (edits.map Edit.start).Nodup) :
    (splice? s edits).isSome ↔ edits.Pairwise Edit.Apart := by
  constructor
  · intro h
    obtain ⟨t, ht⟩ := Option.isSome_iff_exists.1 h
    have hp := leftToRight_perm edits
    obtain ⟨_, _, -, -, hes⟩ := exists_spliced_of_spliceFrom? ht fun e he =>
      (hl e (hp.mem_iff.1 he)).start_le_stop
    exact (hes.ordered.2.imp Or.inl).perm hp Edit.Apart.symm
  · intro h
    rw [Separate.splice?_eq ⟨hl, h, hs⟩]
    rfl

/-- An empty range inside of another one leaves no stretch between their ends. -/
example : ¬ (splice? "abc".toList [⟨0, 3, "x".toList⟩, ⟨1, 1, "y".toList⟩]).isSome := by
  rw [isSome_splice?_iff (by decide +kernel) (by decide)]
  decide

/-- The text with the range of one edit replaced, if that lies in the text. -/
def replace? (s : Text) (e : Edit) : Option Text :=
  (cut? s e.start e.stop).map fun (front, _, back) => front ++ e.replacement ++ back

theorem replace?_append (hstart : u.byteLength = e.start)
    (hstop : e.start + v.byteLength = e.stop) :
    replace? (u ++ v ++ w) e = some (u ++ e.replacement ++ w) := by
  rw [replace?, cut?_eq_some_iff.2 ⟨rfl, hstart, hstop⟩]
  rfl

/-- The last edit is made first, so no range has moved when its turn comes. -/
theorem Spliced.foldrM_replace? (h : Spliced i s es t) (hu : u.byteLength = i) :
    es.foldrM (fun e s => replace? s e) (u ++ s) = some (u ++ t) := by
  induction h generalizing u with
  | rest => rfl
  | @edit i kept covered s t e es hstart hstop _ ih =>
    have hfront : (u ++ kept).byteLength = e.start := by
      rw [byteLength_append, hu, hstart]
    have hnext : (u ++ kept ++ covered).byteLength = e.stop := by
      rw [byteLength_append, hfront, hstop]
    have hback := ih hnext
    have hturn := replace?_append (w := t) hfront hstop
    simp only [List.append_assoc] at hback hturn
    simp [List.foldrM_cons, hback, hturn]

def Edit.later (n : Nat) (e : Edit) : Edit :=
  { e with start := e.start + n, stop := e.stop + n }

/-- The edit as one of the text behind the first `n` bytes. -/
def Edit.earlier (n : Nat) (e : Edit) : Edit :=
  { e with start := e.start - n, stop := e.stop - n }

theorem Spliced.later (n : Nat) (h : Spliced i s es t) :
    Spliced (i + n) s (es.map (Edit.later n)) t := by
  induction h with
  | rest => exact .rest _ _
  | edit hstart hstop _ ih =>
    refine .edit ?_ ?_ ih
    · rw [Edit.later, ← hstart]
      exact Nat.add_right_comm _ _ _
    · rw [Edit.later, ← hstop]
      exact Nat.add_right_comm _ _ _

theorem Edit.later_earlier (h : e.LiesIn s) (hn : n ≤ e.start) : (e.earlier n).later n = e := by
  have hn' := Nat.le_trans hn h.start_le_stop
  simp only [later, earlier, Nat.sub_add_cancel hn, Nat.sub_add_cancel hn']

theorem Edit.LiesIn.front (h : e.LiesIn (u ++ v)) (hs : e.stop ≤ u.byteLength) : e.LiesIn u := by
  obtain ⟨t, x, y, ht, hx, hy⟩ := h
  obtain ⟨w, hw, -⟩ := exists_eq_append_of_byteLength_le ht.symm (by rw [byteLength_append]; omega)
  exact ⟨t, x, w, hw, hx, hy⟩

theorem Edit.LiesIn.behind (h : e.LiesIn (u ++ v)) (hs : u.byteLength ≤ e.start) :
    (e.earlier u.byteLength).LiesIn v := by
  obtain ⟨t, x, y, ht, hx, hy⟩ := h
  rw [List.append_assoc] at ht
  obtain ⟨w, rfl, rfl⟩ := exists_eq_append_of_byteLength_le ht (hx ▸ hs)
  rw [byteLength_append] at hx
  refine ⟨t, w, y, (List.append_assoc _ _ _).symm, ?_, ?_⟩
  · exact Nat.eq_sub_of_add_eq' hx
  · simp only [earlier]
    omega

theorem Separate.sublist (h : Separate s edits) (hs : es.Sublist edits) : Separate s es where
  liesIn := fun e he => h.liesIn e (hs.subset he)
  apart := h.apart.sublist hs
  starts := h.starts.sublist (hs.map _)

theorem Separate.front (h : Separate (u ++ v) edits) (hu : ∀ e ∈ edits, e.stop ≤ u.byteLength) :
    Separate u edits where
  liesIn := fun e he => (h.liesIn e he).front (hu e he)
  apart := h.apart
  starts := h.starts

theorem Separate.behind (h : Separate (u ++ v) edits) (hu : ∀ e ∈ edits, u.byteLength ≤ e.start) :
    Separate v (edits.map (Edit.earlier u.byteLength)) where
  liesIn := by
    simp only [List.forall_mem_map]
    exact fun e he => (h.liesIn e he).behind (hu e he)
  apart := by
    refine List.pairwise_map.2 (h.apart.imp fun hab => ?_)
    rcases hab with hab | hab
    · exact .inl (Nat.sub_le_sub_right hab _)
    · exact .inr (Nat.sub_le_sub_right hab _)
  starts := by
    have hs := List.pairwise_map.1 h.starts
    rw [List.map_map]
    refine List.pairwise_map.2 (hs.imp_of_mem fun ha hb hab => ?_)
    have ha := hu _ ha
    have hb := hu _ hb
    simp only [Function.comp_apply, Edit.earlier]
    omega

theorem leftToRight_append (hs : ((es ++ fs).map Edit.start).Nodup)
    (ho : ∀ a ∈ es, ∀ b ∈ fs, a.start ≤ b.start) :
    leftToRight (es ++ fs) = leftToRight es ++ leftToRight fs := by
  refine leftToRight_eq hs ((leftToRight_perm es).append (leftToRight_perm fs)) ?_
  refine List.pairwise_append.2 ⟨pairwise_leftToRight es, pairwise_leftToRight fs, ?_⟩
  intro a ha b hb
  exact ho a ((leftToRight_perm es).mem_iff.1 ha) b ((leftToRight_perm fs).mem_iff.1 hb)

theorem leftToRight_earlier_later (h : Separate s edits) (hn : ∀ e ∈ edits, n ≤ e.start) :
    (leftToRight (edits.map (Edit.earlier n))).map (Edit.later n) = leftToRight edits := by
  have hback : (edits.map (Edit.earlier n)).map (Edit.later n) = edits := by
    rw [List.map_map]
    calc
      edits.map (Edit.later n ∘ Edit.earlier n) = edits.map id :=
        List.map_congr_left fun e he => Edit.later_earlier (h.liesIn e he) (hn e he)
      _ = edits := List.map_id _
  have hp := (leftToRight_perm (edits.map (Edit.earlier n))).map (Edit.later n)
  rw [hback] at hp
  refine (leftToRight_eq h.starts hp (List.pairwise_map.2 ?_)).symm
  exact (pairwise_leftToRight _).imp fun hab => Nat.add_le_add_right hab n

/-- A stretch between the ranges of some edits and those of the others stays between what these
edits make of the text in front of it and what the others make of the text behind it. -/
theorem Separate.splice_append (h : Separate (u ++ t ++ v) (es ++ fs))
    (hes : ∀ e ∈ es, e.stop ≤ u.byteLength) (hfs : ∀ e ∈ fs, (u ++ t).byteLength ≤ e.start) :
    splice (u ++ t ++ v) (es ++ fs) =
      splice u es ++ t ++ splice v (fs.map (Edit.earlier (u ++ t).byteLength)) := by
  have hback := h.sublist (List.sublist_append_right es fs)
  have hfront := h.sublist (List.sublist_append_left es fs)
  have horder : leftToRight (es ++ fs) = leftToRight es ++ leftToRight fs := by
    refine leftToRight_append h.starts fun a ha b hb => ?_
    have ha' := (hfront.liesIn a ha).start_le_stop
    have hau := hes a ha
    have hbu := hfs b hb
    rw [byteLength_append] at hbu
    omega
  -- The edits behind the stretch, in the text behind it and then back in their places.
  have hlast := (hback.behind hfs).spliced.later (u ++ t).byteLength
  rw [leftToRight_earlier_later hback hfs, Nat.zero_add] at hlast
  generalize splice v (fs.map (Edit.earlier (u ++ t).byteLength)) = r at hlast ⊢
  have hrest : Spliced (0 + u.byteLength) (t ++ v) (leftToRight fs) (t ++ r) := by
    rw [byteLength_append] at hlast
    refine Spliced.kept ?_
    rwa [Nat.zero_add]
  rw [List.append_assoc] at hfront
  have hall := (hfront.front hes).spliced.append hrest
  rw [← horder, ← List.append_assoc, ← List.append_assoc] at hall
  exact hall.spliceFrom_eq

theorem Separate.splice_perm (h : Separate s edits) (hp : es.Perm edits) :
    splice s es = splice s edits :=
  congrArg (spliceFrom 0 s) (leftToRight_eq_of_perm h.starts hp)

/-- So does each stretch that no range meets. An empty range at its start counts as one in front of
it. -/
theorem Separate.splice_kept (h : Separate (u ++ t ++ v) edits)
    (ht : ∀ e ∈ edits, e.stop ≤ u.byteLength ∨ (u ++ t).byteLength ≤ e.start) :
    splice (u ++ t ++ v) edits =
      splice u (edits.filter fun e => e.stop ≤ u.byteLength) ++ t ++
        splice v ((edits.filter fun e => u.byteLength < e.stop).map
          (Edit.earlier (u ++ t).byteLength)) := by
  have hp := List.filter_append_perm (fun e : Edit => decide (e.stop ≤ u.byteLength)) edits
  simp only [← decide_not, Nat.not_le] at hp
  rw [← h.splice_perm hp]
  refine (h.perm hp).splice_append (fun e he => ?_) fun e he => ?_
  · exact of_decide_eq_true (List.mem_filter.1 he).2
  · obtain ⟨he, hu⟩ := List.mem_filter.1 he
    exact (ht e he).resolve_left (Nat.not_le.2 (of_decide_eq_true hu))

/-- The splice takes only stretches that are there. It is what the edits make of the text one at a
time from right to left, and the same for each order in which they are given. A stretch of the text
that meets no range stays between what the edits in front of it make of the text in front and what
the edits behind it make of the text behind. -/
theorem splice_of_separate (h : Separate s edits) :
    splice? s edits = some (splice s edits) ∧
      (rightToLeft edits).foldlM replace? s = some (splice s edits) ∧
      (∀ es, es.Perm edits → splice? s es = some (splice s edits)) ∧
      ∀ u t v, s = u ++ t ++ v →
        (∀ e ∈ edits, e.stop ≤ u.byteLength ∨ (u ++ t).byteLength ≤ e.start) →
        splice s edits =
          splice u (edits.filter fun e => e.stop ≤ u.byteLength) ++ t ++
            splice v ((edits.filter fun e => u.byteLength < e.stop).map
              (Edit.earlier (u ++ t).byteLength)) := by
  refine ⟨h.splice?_eq, ?_, fun es hp => ?_, ?_⟩
  · have hr := h.spliced.foldrM_replace? (u := []) rfl
    rwa [leftToRight_eq_reverse h.starts, ← List.foldlM_reverse, List.reverse_reverse] at hr
  · rw [← h.splice_perm hp]
    exact (h.perm hp).splice?_eq
  · rintro u t v rfl ht
    exact h.splice_kept ht

/-- Ranges may touch and may be empty, and the edits may come in any order. -/
theorem splice_of_separate_touching :
    let s : Text := ".é .b".toList
    let edits : List Edit := [⟨4, 6, "Y".toList⟩, ⟨0, 3, "X".toList⟩, ⟨3, 3, "-".toList⟩]
    Separate s edits ∧ splice s edits = "X- Y".toList ∧ splice? s edits = some (splice s edits) ∧
      (rightToLeft edits).foldlM replace? s = some (splice s edits) ∧
      splice? s edits.reverse = some (splice s edits) ∧
      splice s edits =
        splice ".é".toList [⟨0, 3, "X".toList⟩, ⟨3, 3, "-".toList⟩] ++ " ".toList ++
          splice ".b".toList [⟨0, 2, "Y".toList⟩] := by
  intro s edits
  have h : Separate s edits := by decide +kernel
  have ho : leftToRight edits = [⟨0, 3, "X".toList⟩, ⟨3, 3, "-".toList⟩, ⟨4, 6, "Y".toList⟩] :=
    leftToRight_eq h.starts (List.perm_append_singleton _ [_, _]) (by decide)
  have hs : splice s edits = "X- Y".toList :=
    (congrArg (spliceFrom 0 s) ho).trans (by decide +kernel)
  obtain ⟨hall, hsingly, horder, hkept⟩ := splice_of_separate h
  refine ⟨h, hs, hall, hsingly, horder _ (List.reverse_perm edits), ?_⟩
  exact hkept ".é".toList " ".toList ".b".toList rfl (by decide +kernel)

end ComponentSheet.Text
