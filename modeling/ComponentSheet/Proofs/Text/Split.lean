import ComponentSheet.Text.Basic

/-! The texts between the occurrences of a character. -/
namespace ComponentSheet.Text

variable {c d : Char} {s t : Text} {l : List Text}

theorem splitAt_cons_self (c : Char) (s : Text) : splitAt c (c :: s) = [] :: splitAt c s :=
  if_pos rfl

theorem splitAt_ne_nil (c : Char) (s : Text) : splitAt c s ≠ [] := by
  cases s with
  | nil => simp [splitAt]
  | cons d s =>
    rw [splitAt]
    split
    · simp
    · split <;> simp

theorem exists_splitAt_cons (h : d ≠ c) (s : Text) :
    ∃ l ls, splitAt c s = l :: ls ∧ splitAt c (d :: s) = (d :: l) :: ls := by
  obtain ⟨l, ls, hl⟩ := List.exists_cons_of_ne_nil (splitAt_ne_nil c s)
  refine ⟨l, ls, hl, ?_⟩
  rw [splitAt, if_neg h, hl]

theorem splitAt_append (s t : Text) : splitAt c (s ++ c :: t) = splitAt c s ++ splitAt c t := by
  induction s with
  | nil => exact splitAt_cons_self c t
  | cons d s ih =>
    by_cases hd : d = c
    · subst hd
      rw [List.cons_append, splitAt_cons_self, splitAt_cons_self, ih, List.cons_append]
    · obtain ⟨l, ls, hl, hs⟩ := exists_splitAt_cons hd s
      obtain ⟨l', ls', hl', hs'⟩ := exists_splitAt_cons hd (s ++ c :: t)
      rw [ih, hl, List.cons_append] at hl'
      obtain ⟨rfl, rfl⟩ := List.cons.inj hl'
      rw [List.cons_append, hs', hs, List.cons_append]

theorem splitAt_of_not_mem (h : c ∉ t) : splitAt c t = [t] := by
  induction t with
  | nil => rfl
  | cons d t ih =>
    rw [List.mem_cons, not_or] at h
    obtain ⟨l, ls, hl, hs⟩ := exists_splitAt_cons (fun hd => h.1 hd.symm) t
    rw [ih h.2] at hl
    obtain ⟨rfl, rfl⟩ := List.cons.inj hl
    exact hs

theorem not_mem_of_mem_splitAt (h : t ∈ splitAt c s) : c ∉ t := by
  induction s generalizing t with
  | nil =>
    obtain rfl : t = [] := by simpa [splitAt] using h
    exact List.not_mem_nil
  | cons d s ih =>
    by_cases hd : d = c
    · subst hd
      rw [splitAt_cons_self, List.mem_cons] at h
      rcases h with rfl | h
      · exact List.not_mem_nil
      · exact ih h
    · obtain ⟨l, ls, hl, hs⟩ := exists_splitAt_cons hd s
      rw [hs, List.mem_cons] at h
      rw [hl] at ih
      rcases h with rfl | h
      · rw [List.mem_cons, not_or]
        exact ⟨fun hc => hd hc.symm, ih List.mem_cons_self⟩
      · exact ih (List.mem_cons_of_mem _ h)

theorem splitAt_join (hl : l ≠ []) (h : ∀ t ∈ l, c ∉ t) : splitAt c (join [c] l) = l := by
  induction l with
  | nil => exact absurd rfl hl
  | cons t l ih =>
    rw [List.forall_mem_cons] at h
    cases l with
    | nil => simpa [join] using splitAt_of_not_mem h.1
    | cons u l =>
      have hjoin : join [c] (t :: u :: l) = t ++ c :: join [c] (u :: l) := by simp [join]
      rw [hjoin, splitAt_append, splitAt_of_not_mem h.1, ih (List.cons_ne_nil _ _) h.2]
      rfl

end ComponentSheet.Text
