import ComponentSheet.Text.Basic

/-! What trimming leaves, and where a text is cut. -/
namespace ComponentSheet.Text

variable {c d : Char} {s t u v w : Text} {p : Text × Text}

theorem trimStart_append (hu : u.all isBlank) : trimStart (u ++ s) = trimStart s := by
  induction u with
  | nil => rfl
  | cons c u ih =>
    rw [List.all_cons, Bool.and_eq_true] at hu
    rw [← ih hu.2]
    exact List.dropWhile_cons_of_pos hu.1

theorem trimEnd_append (hv : v.all isBlank) : trimEnd (s ++ v) = trimEnd s := by
  have h : trimStart (v.reverse ++ s.reverse) = trimStart s.reverse :=
    trimStart_append (by simpa using hv)
  rw [trimEnd, List.reverse_append]
  exact congrArg List.reverse h

theorem trimStart_eq_self (h : ∀ c ∈ s.head?, isBlank c = false) : trimStart s = s := by
  cases s with
  | nil => rfl
  | cons c s => exact List.dropWhile_cons_of_neg (by simp [h c rfl])

theorem trimEnd_eq_self (h : ∀ c ∈ s.getLast?, isBlank c = false) : trimEnd s = s := by
  have hr : trimStart s.reverse = s.reverse := trimStart_eq_self (by simpa using h)
  rw [trimEnd]
  exact (congrArg List.reverse hr).trans s.reverse_reverse

theorem exists_eq_trimStart (s : Text) : ∃ u : Text, s = u ++ trimStart s ∧ u.all isBlank :=
  ⟨s.takeWhile isBlank, List.takeWhile_append_dropWhile.symm, by simp⟩

theorem exists_eq_trimEnd (s : Text) : ∃ v : Text, s = trimEnd s ++ v ∧ v.all isBlank := by
  obtain ⟨u, hs, hu⟩ := exists_eq_trimStart s.reverse
  refine ⟨u.reverse, ?_, by simpa using hu⟩
  calc s = s.reverse.reverse := s.reverse_reverse.symm
    _ = (u ++ trimStart s.reverse).reverse := by rw [← hs]
    _ = trimEnd s ++ u.reverse := List.reverse_append

theorem head_trimStart (s : Text) : ∀ c ∈ (trimStart s).head?, isBlank c = false := by
  intro c hc
  have h := List.head?_dropWhile_not isBlank s
  rw [trimStart, Option.mem_def] at hc
  rwa [hc] at h

theorem getLast_trimEnd (s : Text) : ∀ c ∈ (trimEnd s).getLast?, isBlank c = false := by
  intro c hc
  rw [trimEnd, List.getLast?_reverse] at hc
  exact head_trimStart s.reverse c hc

/-- Trimming the end leaves the start. -/
theorem head_trimEnd (h : ∀ c ∈ s.head?, isBlank c = false) :
    ∀ c ∈ (trimEnd s).head?, isBlank c = false := by
  intro c hc
  obtain ⟨v, hs, -⟩ := exists_eq_trimEnd s
  rw [hs, List.head?_append, hc] at h
  exact h c rfl

theorem trim_eq_self_iff :
    s.trim = s ↔ (∀ c ∈ s.head?, isBlank c = false) ∧ ∀ c ∈ s.getLast?, isBlank c = false := by
  constructor
  · intro h
    have hh := head_trimEnd (head_trimStart s)
    have hl := getLast_trimEnd (trimStart s)
    rw [← trim, h] at hh hl
    exact ⟨hh, hl⟩
  · rintro ⟨hh, hl⟩
    rw [trim, trimStart_eq_self hh, trimEnd_eq_self hl]

theorem trim_trim (s : Text) : s.trim.trim = s.trim :=
  trim_eq_self_iff.2 ⟨head_trimEnd (head_trimStart s), getLast_trimEnd _⟩

theorem trim_append_left (hu : u.all isBlank) : (u ++ s).trim = s.trim := by
  rw [trim, trimStart_append hu, trim]

theorem trim_eq_nil (hs : s.all isBlank) : s.trim = [] := by
  have h : (s ++ []).trim = Text.trim [] := trim_append_left hs
  rw [← List.append_nil s, h]
  rfl

/-- Blanks at the end count for nothing, also where there is nothing else. -/
theorem trim_append_right (hv : v.all isBlank) : (s ++ v).trim = s.trim := by
  by_cases hs : s.all isBlank
  · have hsv : (s ++ v).all isBlank := by simp only [List.all_append, hs, hv, Bool.and_self]
    rw [trim_eq_nil hsv, trim_eq_nil hs]
  · have hd : trimStart s ≠ [] := by
      intro h
      obtain ⟨u, hu, hb⟩ := exists_eq_trimStart s
      rw [h, List.append_nil] at hu
      exact hs (hu ▸ hb)
    have ha : trimStart (s ++ v) = trimStart s ++ v := by
      rw [trimStart, List.dropWhile_append, if_neg (by simpa [trimStart] using hd)]
      rfl
    rw [trim, ha, trimEnd_append hv, trim]

theorem trim_trimEnd (s : Text) : s.trimEnd.trim = s.trim := by
  obtain ⟨v, hs, hv⟩ := exists_eq_trimEnd s
  calc s.trimEnd.trim = (s.trimEnd ++ v).trim := (trim_append_right hv).symm
    _ = s.trim := by rw [← hs]

theorem trimStart_append_cons (hc : isBlank c = false) :
    trimStart (s ++ c :: t) = trimStart s ++ c :: t := by
  induction s with
  | nil => exact List.dropWhile_cons_of_neg (by simp [hc])
  | cons d s ih =>
    simp only [trimStart] at ih ⊢
    by_cases hd : isBlank d
    · rw [List.cons_append, List.dropWhile_cons_of_pos hd, List.dropWhile_cons_of_pos hd, ih]
    · rw [List.cons_append, List.dropWhile_cons_of_neg hd, List.dropWhile_cons_of_neg hd,
        List.cons_append]

theorem trimEnd_append_cons (hc : isBlank c = false) :
    trimEnd (s ++ c :: t) = s ++ c :: trimEnd t := by
  have h : trimStart (t.reverse ++ c :: s.reverse) = trimStart t.reverse ++ c :: s.reverse :=
    trimStart_append_cons hc
  simpa [trimEnd, trimStart] using congrArg List.reverse h

/-- The first character of what trimming leaves, and the blanks in front of it. -/
theorem exists_eq_head_trim (h : s.trim ≠ []) :
    ∃ u c t, s = u ++ c :: t ∧ u.all isBlank ∧ isBlank c = false ∧ s.trim.head? = some c ∧
      trimStart s = c :: t := by
  obtain ⟨u, hs, hu⟩ := exists_eq_trimStart s
  have hb := head_trimStart s
  rw [trim] at h ⊢
  generalize trimStart s = r at hs hb h ⊢
  cases r with
  | nil => exact absurd rfl h
  | cons c t =>
    refine ⟨u, c, t, hs, hu, hb c rfl, ?_, rfl⟩
    obtain ⟨v, hv, -⟩ := exists_eq_trimEnd (c :: t)
    obtain ⟨d, r, hr⟩ := List.exists_cons_of_ne_nil h
    rw [hr] at hv ⊢
    exact congrArg some (List.cons.inj hv).1.symm

theorem head_of_head_trim (h : ∀ c ∈ s.head?, isBlank c = false) (hc : s.trim.head? = some c) :
    s.head? = some c := by
  obtain ⟨v, hs, -⟩ := exists_eq_trimEnd s
  rw [trim, trimStart_eq_self h] at hc
  rw [hs, List.head?_append, hc]
  rfl

theorem trim_ne_nil (hc : c ∈ s) (hb : isBlank c = false) : s.trim ≠ [] := by
  intro h
  obtain ⟨u, v, hs, hu, hv⟩ := exists_eq_trim s
  rw [h, List.append_nil] at hs
  have hall : s.all isBlank := by simp only [hs, List.all_append, hu, hv, Bool.and_self]
  simp [List.all_eq_true.1 hall c hc] at hb

theorem mem_of_mem_trim (h : c ∈ s.trim) : c ∈ s := by
  obtain ⟨u, v, hs, -, -⟩ := exists_eq_trim s
  rw [hs]
  simp [h]

theorem eq_nil_of_blanks (hw : w.all isBlank) (hl : ∀ c ∈ (s ++ w).getLast?, isBlank c = false) :
    w = [] := by
  rcases List.eq_nil_or_concat w with rfl | ⟨w, c, rfl⟩
  · rfl
  · have hc : isBlank c = false := hl c (by simp)
    simp [hc] at hw

/-- A character that is not blank stands in front of the blanks at the end. -/
theorem exists_of_append_blanks {c : Char} (hw : w.all isBlank) (hc : isBlank c = false)
    (h : s ++ w = u ++ c :: v) : ∃ x, s = u ++ c :: x ∧ v = x ++ w := by
  have hcw {x y : Text} : w ≠ x ++ c :: y := by
    rintro rfl
    simp [hc] at hw
  rcases List.append_eq_append_iff.1 h with ⟨x, -, hx⟩ | ⟨x, hs, hx⟩
  · exact absurd hx hcw
  · cases x with
    | nil => exact absurd hx.symm (hcw (x := []))
    | cons d x =>
      obtain ⟨rfl, rfl⟩ := List.cons.inj hx
      exact ⟨x, hs, rfl⟩

theorem cutAt?_eq_none_iff : cutAt? c s = none ↔ c ∉ s := by
  induction s with
  | nil => simp [cutAt?]
  | cons d s ih =>
    rw [cutAt?]
    by_cases h : d = c
    · simp [h]
    · have h' : ¬ c = d := fun hc => h hc.symm
      cases hs : cutAt? c s <;> simp_all

theorem notMem_of_cutAt? (h : cutAt? c s = some p) : c ∉ p.1 := by
  induction s generalizing p with
  | nil => simp [cutAt?] at h
  | cons d s ih =>
    rw [cutAt?] at h
    split at h
    · cases h
      simp
    · rename_i hd
      obtain ⟨q, hq, rfl⟩ := took_eq_some_iff.1 h
      have hc : c ≠ d := fun h => hd h.symm
      simp [hc, ih hq]

theorem cutAt?_append (h : c ∉ s) : cutAt? c (s ++ c :: t) = some (s, t) := by
  induction s with
  | nil => simp [cutAt?]
  | cons d s ih =>
    rw [List.mem_cons, not_or] at h
    have hd : d ≠ c := fun hd => h.1 hd.symm
    simp [cutAt?, ih h.2, hd]

end ComponentSheet.Text
