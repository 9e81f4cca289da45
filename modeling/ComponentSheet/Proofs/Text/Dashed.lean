import ComponentSheet.Proofs.Text.Casing
import ComponentSheet.Text.Dashed
import Mathlib.Data.List.Destutter

/-! The dashed form of a name, step by step and as a whole, and when dashing it again changes
nothing. -/
namespace ComponentSheet.Text

variable {b c d e : Char} {s t : Text} {before : Option Char}

theorem isUpper_dash : isUpper '-' = false := by
  decide +kernel

theorem isLower_dash : isLower '-' = false := by
  decide +kernel

theorem lowered_dash : lowered '-' = ['-'] := by
  decide +kernel

/-- No lower case has a dash in it but that of the dash. -/
theorem dash_mem_lowered : '-' ∈ lowered c ↔ c = '-' := by
  constructor
  · exact fun h => (eq_of_mem_lowered h (by decide)).symm
  · rintro rfl
    rw [lowered_dash]
    exact List.mem_singleton_self _

theorem exists_getLast_lowered (c : Char) : ∃ d, (lowered c).getLast? = some d ∧ d ∈ lowered c :=
  ⟨_, List.getLast?_eq_some_getLast (lowered_ne_nil c), List.getLast_mem _⟩

theorem getLast_lowered : (lowered c).getLast? = some '-' ↔ c = '-' := by
  constructor
  · exact fun h => dash_mem_lowered.1 (List.mem_of_getLast? h)
  · rintro rfl
    rw [lowered_dash]
    rfl

/-- What a character adds to the dashed form of a text that ends with `before`. -/
theorem dashedAfter_concat (s : Text) (c : Char) :
    dashedAfter before (s ++ [c]) =
      dashedAfter before s ++ dashedAfter (s.getLast?.or before) [c] := by
  induction s generalizing before with
  | nil => rfl
  | cons d s ih =>
    have hlast : (d :: s).getLast?.or before = s.getLast?.or (some d) := by
      rw [List.getLast?_cons]
      cases s.getLast? <;> rfl
    rw [List.cons_append, dashedAfter, dashedAfter, ih, hlast]
    split
    · rfl
    · split <;> simp

theorem dashedAfter_singleton (before : Option Char) (c : Char) :
    dashedAfter before [c] =
      if c = '-' ∧ before = some '-' then []
      else if isUpper c ∧ before.any isLower then '-' :: lowered c
      else lowered c := by
  simp [dashedAfter]

/-- The dashed form ends with the end of the last character's lower case. -/
theorem getLast_dashed (s : Text) :
    s.dashed.getLast? = s.getLast?.bind fun c => (lowered c).getLast? := by
  induction s using List.reverseRecOn with
  | nil => rfl
  | append_singleton s c ih =>
    obtain ⟨d, hd, -⟩ := exists_getLast_lowered c
    rw [dashed, dashedAfter_concat, dashedAfter_singleton, Option.or_none, List.getLast?_concat,
      Option.bind_some, hd]
    split
    · rename_i hdash
      rw [List.append_nil, ← dashed, ih, hdash.2, Option.bind_some, ← hd, hdash.1]
    · split <;> simp [List.getLast?_append, List.getLast?_cons, hd]

theorem getLast_dashed_dash : s.dashed.getLast? = some '-' ↔ s.getLast? = some '-' := by
  rw [getLast_dashed, Option.bind_eq_some_iff]
  simp only [getLast_lowered]
  exact ⟨fun ⟨_, h, hc⟩ => hc ▸ h, fun h => ⟨_, h, rfl⟩⟩

/-- A dash is left out behind one that is written already; in front of an upper-case character
behind a lower-case one a dash is put in. -/
theorem dashed_concat (s : Text) (c : Char) :
    (s ++ [c]).dashed =
      if c = '-' ∧ s.dashed.getLast? = some '-' then s.dashed
      else if isUpper c ∧ s.getLast?.any isLower then s.dashed ++ '-' :: lowered c
      else s.dashed ++ lowered c := by
  simp only [getLast_dashed_dash]
  rw [dashed, dashedAfter_concat, dashedAfter_singleton, Option.or_none]
  split
  · exact List.append_nil _
  · split <;> rfl

/-- The text with a dash in front of each upper-case character right behind a lower-case one. -/
def parted : Text → Text
  | c :: d :: s =>
    if isLower c ∧ isUpper d then c :: '-' :: parted (d :: s) else c :: parted (d :: s)
  | s => s

def lowercase (s : Text) : Text :=
  s.flatMap lowered

/-- The two characters are not both dashes. -/
def NotDashes (c d : Char) : Prop :=
  ¬ (c = '-' ∧ d = '-')

instance : DecidableRel NotDashes :=
  fun c d => inferInstanceAs (Decidable (¬ (c = '-' ∧ d = '-')))

/-- The text with only the first dash of each run of dashes. -/
def collapsed (s : Text) : Text :=
  s.destutter NotDashes

theorem parted_concat (s : Text) (c : Char) :
    parted (s ++ [c]) =
      parted s ++ if isUpper c ∧ s.getLast?.any isLower then ['-', c] else [c] := by
  fun_induction parted s with
  | case1 b d s h ih | case2 b d s h ih =>
    rw [List.cons_append, List.cons_append, parted, List.getLast?_cons_cons, ← List.cons_append, ih]
    simp [h]
  | case3 s h =>
    cases s with
    | nil => simp [parted]
    | cons b s =>
      cases s with
      | cons d s => exact absurd rfl (h b d s)
      | nil =>
        simp only [List.singleton_append, parted, List.getLast?_singleton, Option.any_some,
          and_comm (a := (isUpper c : Prop))]
        split <;> rfl

theorem lowercase_append (s t : Text) : lowercase (s ++ t) = lowercase s ++ lowercase t :=
  List.flatMap_append

theorem lowercase_singleton (c : Char) : lowercase [c] = lowered c :=
  List.flatMap_singleton _ _

theorem lowercase_dash (c : Char) : lowercase ['-', c] = '-' :: lowered c := by
  rw [← List.singleton_append, lowercase_append, lowercase_singleton, lowercase_singleton,
    lowered_dash, List.singleton_append]

theorem isChain_of_notMem (h : '-' ∉ s) : s.IsChain NotDashes := by
  rw [List.isChain_iff_forall_rel_of_append_cons_cons]
  rintro c d l m rfl ⟨rfl, -⟩
  exact h (by simp)

theorem isChain_lowered (c : Char) : (lowered c).IsChain NotDashes := by
  by_cases hc : c = '-'
  · rw [hc, lowered_dash]
    exact .singleton _
  · exact isChain_of_notMem (mt dash_mem_lowered.1 hc)

theorem destutter'_append (h : (s.destutter' NotDashes c ++ t).IsChain NotDashes) :
    (s ++ t).destutter' NotDashes c = s.destutter' NotDashes c ++ t := by
  induction s generalizing c with
  | nil => exact List.destutter'_of_isChain_cons _ _ h
  | cons d s ih =>
    by_cases hd : NotDashes c d
    · rw [List.destutter'_cons_pos _ hd] at h
      rw [List.cons_append, List.destutter'_cons_pos _ hd, List.destutter'_cons_pos _ hd,
        ih (List.isChain_of_isChain_cons h), List.cons_append]
    · rw [List.destutter'_cons_neg _ hd] at h
      rw [List.cons_append, List.destutter'_cons_neg _ hd, List.destutter'_cons_neg _ hd, ih h]

theorem collapsed_append (h : (collapsed s ++ t).IsChain NotDashes) :
    collapsed (s ++ t) = collapsed s ++ t := by
  cases s with
  | nil => exact List.destutter_of_isChain _ _ h
  | cons c s => exact destutter'_append h

theorem destutter'_dash (h : (s.destutter' NotDashes c).getLast? = some '-') :
    (s ++ ['-']).destutter' NotDashes c = s.destutter' NotDashes c := by
  induction s generalizing c with
  | nil =>
    obtain rfl : c = '-' := by simpa using h
    rfl
  | cons d s ih =>
    by_cases hd : NotDashes c d
    · rw [List.destutter'_cons_pos _ hd] at h
      have hlast : (s.destutter' NotDashes d).getLast? = some '-' := by
        obtain ⟨e, l, hl⟩ := List.exists_cons_of_ne_nil (List.destutter'_ne_nil s NotDashes)
        rw [hl] at h ⊢
        exact h
      rw [List.cons_append, List.destutter'_cons_pos _ hd, List.destutter'_cons_pos _ hd, ih hlast]
    · rw [List.destutter'_cons_neg _ hd] at h
      rw [List.cons_append, List.destutter'_cons_neg _ hd, List.destutter'_cons_neg _ hd, ih h]

theorem collapsed_dash (h : (collapsed s).getLast? = some '-') :
    collapsed (s ++ ['-']) = collapsed s := by
  cases s with
  | nil => cases h
  | cons c s => exact destutter'_dash h

theorem isChain_dash_lowered (hc : c ≠ '-') : ('-' :: lowered c).IsChain NotDashes := by
  rw [List.isChain_cons]
  exact ⟨fun d hd h => hc (dash_mem_lowered.1 (h.2 ▸ List.mem_of_mem_head? hd)), isChain_lowered c⟩

/-- Character by character, dashing does the three steps at once. -/
theorem collapsed_lowercase_parted (s : Text) : collapsed (lowercase (parted s)) = s.dashed := by
  induction s using List.reverseRecOn with
  | nil => rfl
  | append_singleton s c ih =>
    have hchain : (dashed s).IsChain NotDashes := ih ▸ List.isChain_destutter _ _
    have happend (t : Text) (ht : t.IsChain NotDashes)
        (hst : (dashed s).getLast? = some '-' → t.head? ≠ some '-') :
        collapsed (lowercase (parted s) ++ t) = dashed s ++ t := by
      rw [collapsed_append, ih]
      rw [ih, List.isChain_append]
      refine ⟨hchain, ht, ?_⟩
      rintro x hx y hy ⟨rfl, rfl⟩
      exact hst hx hy
    rw [parted_concat, lowercase_append, dashed_concat]
    by_cases hd : c = '-' ∧ (dashed s).getLast? = some '-'
    · obtain ⟨rfl, hlast⟩ := hd
      rw [if_neg (by simp [isUpper_dash]), if_pos ⟨rfl, hlast⟩, lowercase_singleton, lowered_dash,
        collapsed_dash (ih ▸ hlast), ih]
    by_cases hu : isUpper c ∧ s.getLast?.any isLower
    · have hc : c ≠ '-' := by
        rintro rfl
        simp [isUpper_dash] at hu
      rw [if_neg hd, if_pos hu, if_pos hu, lowercase_dash]
      refine happend _ (isChain_dash_lowered hc) fun hlast => ?_
      rw [getLast_dashed_dash] at hlast
      simp [hlast, isLower_dash] at hu
    · rw [if_neg hd, if_neg hu, if_neg hu, lowercase_singleton]
      refine happend _ (isChain_lowered c) fun hlast hhead => hd ⟨?_, hlast⟩
      exact dash_mem_lowered.1 (List.mem_of_mem_head? hhead)

/-- A name is dashed in three steps: dashes are put in front of the upper-case characters behind
lower-case ones, all characters are lowered, and of each run of dashes one is left. So there are no
two dashes in a row. -/
theorem dashed_eq_collapsed (s : Text) :
    s.dashed = collapsed (lowercase (parted s)) ∧ ¬ ['-', '-'] <:+: s.dashed := by
  refine ⟨(collapsed_lowercase_parted s).symm, fun h => ?_⟩
  rw [← collapsed_lowercase_parted] at h
  have hchain := List.IsChain.infix (List.isChain_destutter NotDashes (lowercase (parted s))) h
  exact List.rel_of_isChain_cons_cons hchain ⟨rfl, rfl⟩

/-- No dash is put between the two characters. -/
def Together (c d : Char) : Prop :=
  ¬ (isLower c ∧ isUpper d)

/-- A dashed form that starts behind `c` is dashed already, where no dash is to be put into it. -/
theorem dashedAfter_eq_self_iff (hs : (c :: s).IsChain NotDashes) (hl : ∀ d ∈ s, lowered d = [d]) :
    dashedAfter (some c) s = s ↔ (c :: s).IsChain Together := by
  induction s generalizing c with
  | nil => simp [dashedAfter]
  | cons d s ih =>
    rw [List.forall_mem_cons] at hl
    rw [List.isChain_cons_cons] at hs ⊢
    have hd : ¬ (d = '-' ∧ some c = some '-') := fun h => hs.1 ⟨Option.some.inj h.2, h.1⟩
    rw [dashedAfter, if_neg hd, hl.1]
    by_cases hu : isUpper d ∧ (some c).any isLower
    · rw [if_pos hu]
      refine iff_of_false (fun h => ?_) fun h => h.1 hu.symm
      obtain ⟨rfl, -⟩ := List.cons.inj h
      simp [isUpper_dash] at hu
    · rw [if_neg hu, List.singleton_append, List.cons.injEq, ih hs.2 hl.2]
      simp only [true_and]
      exact ⟨fun h => ⟨fun h' => hu h'.symm, h⟩, And.right⟩

theorem dashed_eq_self_iff (hs : s.IsChain NotDashes) (hl : ∀ c ∈ s, lowered c = [c]) :
    s.dashed = s ↔ s.IsChain Together := by
  cases s with
  | nil => simp [dashed, dashedAfter]
  | cons c s =>
    rw [List.forall_mem_cons] at hl
    rw [dashed, dashedAfter, if_neg (by simp), if_neg (by simp), hl.1, List.singleton_append,
      List.cons.injEq, dashedAfter_eq_self_iff hs hl.2]
    simp

/-- The capital `d` keeps its case, and behind `c`, which is no lower-case character, it comes to
stand behind one. -/
def Uncovers (c d : Char) : Prop :=
  isLower c = false ∧ (lowered c).getLast?.any isLower ∧ isUpper d ∧ lowered d = [d]

/-- Only a character that is its own lower case has a capital for its lower case. -/
theorem isUpper_of_mem_lowered (h : d ∈ lowered c) : isUpper d ↔ isUpper c ∧ lowered c = [c] := by
  rcases lowered_cases c with hc | hc
  · rw [hc, List.mem_singleton] at h
    rw [h]
    exact (and_iff_left hc).symm
  · obtain ⟨hd, hu⟩ := hc d h
    refine iff_of_false (by simp [hu]) ?_
    rintro ⟨hu', hself⟩
    rw [hself, List.mem_singleton] at h
    rw [h, hu'] at hu
    cases hu

theorem together_lowered (c : Char) : (lowered c).IsChain Together := by
  rcases lowered_cases c with hc | hc
  · rw [hc]
    exact .singleton _
  · rw [List.isChain_iff_forall_rel_of_append_cons_cons]
    rintro d e l m he ⟨-, hu⟩
    rw [(hc e (by simp [he])).2] at hu
    cases hu

theorem lowered_of_mem_dashed (h : d ∈ s.dashed) : lowered d = [d] := by
  rw [← collapsed_lowercase_parted] at h
  obtain ⟨c, -, hc⟩ := List.mem_flatMap.1 ((List.destutter_sublist _ _).subset h)
  rcases lowered_cases c with hself | hlow
  · rw [hself, List.mem_singleton] at hc
    rw [hc, hself]
  · exact (hlow d hc).1

theorem together_iff (hd : (lowered b).getLast? = some d) (he : e ∈ lowered c)
    (h : ¬ (isUpper c ∧ isLower b)) : Together d e ↔ ¬ Uncovers b c := by
  rw [Together, Uncovers, isUpper_of_mem_lowered he, hd, Option.any_some]
  refine not_congr ⟨fun ⟨hl, hu, hself⟩ => ⟨?_, hl, hu, hself⟩, And.right⟩
  simpa [hu] using h

theorem together_concat (s : Text) (c : Char) :
    (s ++ [c]).dashed.IsChain Together ↔
      s.dashed.IsChain Together ∧ ∀ b ∈ s.getLast?, ¬ Uncovers b c := by
  rw [dashed_concat]
  split
  · rename_i hc
    refine (and_iff_left fun b hb hu => ?_).symm
    rw [hc.1, Uncovers, isUpper_dash] at hu
    cases hu.2.2.1
  · split
    · rename_i hu
      rw [List.isChain_append, List.isChain_cons]
      have hfront : ∀ d ∈ (lowered c).head?, Together '-' d := fun d hd h => by
        simp [isLower_dash] at h
      have hback : ∀ d ∈ (dashed s).getLast?, ∀ e ∈ ('-' :: lowered c).head?, Together d e := by
        rintro d - e he h
        obtain rfl : '-' = e := by simpa using he
        simp [isUpper_dash] at h
      refine and_congr_right fun _ =>
        iff_of_true ⟨⟨hfront, together_lowered c⟩, hback⟩ fun b hb hun => ?_
      rw [hb, Option.any_some, hun.1] at hu
      cases hu.2
    · rename_i hu
      rw [List.isChain_append]
      refine and_congr_right fun _ => (and_iff_right (together_lowered c)).trans ?_
      rw [getLast_dashed]
      cases hs : s.getLast? with
      | none => simp
      | some b =>
        obtain ⟨d, hd, -⟩ := exists_getLast_lowered b
        obtain ⟨e, l, hl⟩ := List.exists_cons_of_ne_nil (lowered_ne_nil c)
        rw [hs, Option.any_some] at hu
        simpa [hd, hl] using together_iff (e := e) hd (by simp [hl]) hu

theorem isChain_dashed_iff (s : Text) :
    s.dashed.IsChain Together ↔ s.IsChain fun c d => ¬ Uncovers c d := by
  induction s using List.reverseRecOn with
  | nil => simp [dashed, dashedAfter]
  | append_singleton s c ih =>
    rw [together_concat, ih, List.isChain_append]
    simp

/-- Dashing a name twice is dashing it once, exactly if no capital without a lower case stands
behind a character that is no lower-case one but has a lower case that ends with one. -/
theorem dashed_dashed_iff (s : Text) :
    s.dashed.dashed = s.dashed ↔ ∀ c d, [c, d] <:+: s → ¬ Uncovers c d := by
  have hdashes : s.dashed.IsChain NotDashes := by
    rw [← collapsed_lowercase_parted]
    exact List.isChain_destutter _ _
  rw [dashed_eq_self_iff hdashes fun c => lowered_of_mem_dashed, isChain_dashed_iff,
    List.isChain_iff_forall_rel_of_append_cons_cons]
  constructor
  · rintro h c d ⟨l, m, rfl⟩
    exact h (List.append_assoc l [c, d] m)
  · rintro h c d l m rfl
    exact h c d ⟨l, m, by simp⟩

/-- A mathematical capital has no lower case, but the capital in front of it has. -/
theorem dashed_dashed_ne :
    let s : Text := "A𝐀".toList
    s.dashed = "a𝐀".toList ∧ s.dashed.dashed = "a-𝐀".toList ∧ s.dashed.dashed ≠ s.dashed := by
  decide +kernel

end ComponentSheet.Text
