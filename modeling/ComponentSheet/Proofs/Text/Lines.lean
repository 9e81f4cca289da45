import ComponentSheet.Proofs.Text.Trimmed

/-! The lines of a text, one line after the other. -/
namespace ComponentSheet.Text

variable {c : Char} {l s t : Text} {ls : List Text}

/-- A line without the carriage return in front of its line feed. -/
def withoutReturn (l : Text) : Text :=
  if l.getLast? = some '\r' then l.dropLast else l

theorem lines_cons (hc : c ≠ '\n') (hr : ¬ (c = '\r' ∧ s.head? = some '\n')) :
    lines (c :: s) =
      match lines s with
      | [] => [[c]]
      | l :: ls => (c :: l) :: ls := by
  rw [lines.eq_def]
  split
  · contradiction
  · rename_i heq
    exact absurd (List.cons.inj heq).1 hc
  · rename_i heq
    obtain ⟨rfl, rfl⟩ := List.cons.inj heq
    exact absurd ⟨rfl, rfl⟩ hr
  · rename_i heq
    obtain ⟨rfl, rfl⟩ := List.cons.inj heq
    rfl

theorem withoutReturn_cons (h : l ≠ []) : withoutReturn (c :: l) = c :: withoutReturn l := by
  obtain ⟨d, l, rfl⟩ := List.exists_cons_of_ne_nil h
  simp only [withoutReturn, List.getLast?_cons_cons, List.dropLast_cons_cons]
  split <;> rfl

theorem lines_line (h : '\n' ∉ l) : lines (l ++ '\n' :: s) = withoutReturn l :: lines s := by
  induction l with
  | nil => simp [lines, withoutReturn]
  | cons c l ih =>
    rw [List.mem_cons, not_or] at h
    by_cases hl : l = []
    · subst hl
      by_cases hc : c = '\r'
      · subst hc
        simp [lines, withoutReturn]
      · rw [List.cons_append, lines_cons (fun hc => h.1 hc.symm) (fun hr => hc hr.1)]
        simp [lines, withoutReturn, hc]
    · have hn : ¬ (c = '\r' ∧ (l ++ '\n' :: s).head? = some '\n') := by
        rintro ⟨-, hh⟩
        obtain ⟨d, l', rfl⟩ := List.exists_cons_of_ne_nil hl
        have hd : d = '\n' := by simpa using hh
        exact h.2 (by simp [hd])
      rw [List.cons_append, lines_cons (fun hc => h.1 hc.symm) hn, ih h.2, withoutReturn_cons hl]

theorem lines_last (h : '\n' ∉ l) (hl : l ≠ []) : lines l = [l] := by
  induction l with
  | nil => exact absurd rfl hl
  | cons c l ih =>
    rw [List.mem_cons, not_or] at h
    have hn : ¬ (c = '\r' ∧ l.head? = some '\n') :=
      fun hr => h.2 (List.mem_of_mem_head? hr.2)
    rw [lines_cons (fun hc => h.1 hc.symm) hn]
    by_cases hl' : l = []
    · subst hl'
      rfl
    · rw [ih h.2 hl']

/-- Induction along the lines: none, a last one without line feed, and one in front of others. -/
theorem lines_induction {P : Text → Prop} (nil : P [])
    (last : ∀ l, '\n' ∉ l → l ≠ [] → P l)
    (line : ∀ l s, '\n' ∉ l → P s → P (l ++ '\n' :: s)) (s : Text) : P s := by
  induction hn : s.length using Nat.strongRecOn generalizing s with
  | ind n ih =>
    cases hs : cutAt? '\n' s with
    | none =>
      by_cases h : s = []
      · exact h ▸ nil
      · exact last s (cutAt?_eq_none_iff.1 hs) h
    | some p =>
      obtain rfl := eq_of_cutAt? hs
      have hlt : p.2.length < n := by
        rw [← hn]
        simp only [List.length_append, List.length_cons]
        omega
      exact line _ _ (notMem_of_cutAt? hs) (ih _ hlt _ rfl)

theorem notMem_withoutReturn (h : '\n' ∉ l) : '\n' ∉ withoutReturn l := by
  rw [withoutReturn]
  split
  · exact fun hm => h (List.dropLast_subset l hm)
  · exact h

theorem notMem_of_mem_lines (s : Text) : ∀ l ∈ lines s, '\n' ∉ l := by
  induction s using lines_induction with
  | nil => simp [lines]
  | last l h hl => simpa [lines_last h hl] using h
  | line l s h ih =>
    rw [lines_line h, List.forall_mem_cons]
    exact ⟨notMem_withoutReturn h, ih⟩

/-- A carriage return is a blank. -/
theorem trim_withoutReturn (l : Text) : (withoutReturn l).trim = l.trim := by
  rw [withoutReturn]
  split
  · rename_i h
    obtain ⟨l', rfl⟩ := List.getLast?_eq_some_iff.1 h
    rw [List.dropLast_concat, trim_append_right (by decide)]
  · rfl

theorem join_cons_cons (l m : Text) (ls : List Text) :
    join ['\n'] (l :: m :: ls) = l ++ '\n' :: join ['\n'] (m :: ls) := by
  simp [join]

/-- Lines put together are read as lines again, unless one ends with a carriage return or there is
nothing in the last one. -/
theorem lines_join (h : ∀ l ∈ ls, '\n' ∉ l ∧ l.getLast? ≠ some '\r') (hl : ls.getLast? ≠ some []) :
    lines (join ['\n'] ls) = ls := by
  induction ls with
  | nil => rfl
  | cons l ls ih =>
    rw [List.forall_mem_cons] at h
    cases ls with
    | nil =>
      have hl' : l ≠ [] := by simpa using hl
      simpa [join] using lines_last h.1.1 hl'
    | cons l' ls =>
      rw [join_cons_cons, lines_line h.1.1, ih h.2 (by simpa using hl), withoutReturn, if_neg h.1.2]

theorem getLast_join (h : ls.getLast? = some l) (hl : l ≠ []) :
    (join ['\n'] ls).getLast? = l.getLast? := by
  induction ls with
  | nil => cases h
  | cons m ls ih =>
    cases ls with
    | nil =>
      obtain rfl : m = l := by simpa using h
      simp [join]
    | cons m' ls =>
      have hrest := ih (by simpa using h)
      obtain ⟨l', c, rfl⟩ : ∃ l' c, l = l' ++ [c] := ⟨_, _, (List.dropLast_concat_getLast hl).symm⟩
      rw [join_cons_cons, List.getLast?_append, List.getLast?_cons, hrest]
      simp

/-- The lines of a text without the blanks at their ends. -/
def trimmedLines (s : Text) : List Text :=
  (lines s).map trim

theorem trimmedLines_line (h : '\n' ∉ l) (s : Text) :
    trimmedLines (l ++ '\n' :: s) = l.trim :: trimmedLines s := by
  rw [trimmedLines, lines_line h, List.map_cons, trim_withoutReturn, trimmedLines]

theorem trimmedLines_last (h : '\n' ∉ l) (hl : l ≠ []) : trimmedLines l = [l.trim] := by
  rw [trimmedLines, lines_last h hl, List.map_singleton]

theorem trimmedLines_ne_nil (h : s ≠ []) : trimmedLines s ≠ [] := by
  induction s using lines_induction with
  | nil => exact absurd rfl h
  | last l hn hl => simp [trimmedLines_last hn hl]
  | line l s hn _ => simp [trimmedLines_line hn]

theorem of_mem_trimmedLines (h : l ∈ trimmedLines s) : l.trim = l ∧ '\n' ∉ l := by
  obtain ⟨m, hm, rfl⟩ := List.mem_map.1 h
  exact ⟨trim_trim m, fun hn => notMem_of_mem_lines s m hm (mem_of_mem_trim hn)⟩

/-- The first line of a trimmed text is not empty. -/
theorem head_trimmedLines (hc : isBlank c = false) :
    ∃ l ls, trimmedLines (c :: s) = l :: ls ∧ l.head? = some c := by
  have htrim : ∀ m : Text, m.head? = some c → m.trim.head? = some c := by
    intro m hm
    obtain ⟨m, rfl⟩ := List.head?_eq_some_iff.1 hm
    obtain ⟨u, e, t, -, -, -, hh, hs⟩ := exists_eq_head_trim (trim_ne_nil (List.mem_cons_self) hc)
    have hstart : trimStart (c :: m) = c :: m := trimStart_eq_self (by simpa using hc)
    obtain ⟨rfl, -⟩ := List.cons.inj (hstart.symm.trans hs)
    exact hh
  generalize hs : c :: s = t
  induction t using lines_induction with
  | nil => cases hs
  | last l hn hl =>
    rw [trimmedLines_last hn hl]
    exact ⟨_, _, rfl, htrim l (hs ▸ rfl)⟩
  | line l t hn _ =>
    rw [trimmedLines_line hn]
    refine ⟨_, _, rfl, htrim l ?_⟩
    cases l with
    | nil =>
      obtain ⟨rfl, -⟩ := List.cons.inj hs
      exact absurd hc (by decide)
    | cons d l =>
      obtain ⟨rfl, -⟩ := List.cons.inj hs
      rfl

theorem getLast_trimmedLines (hs : s.getLast? = some c) (hc : isBlank c = false) :
    (trimmedLines s).getLast? ≠ some [] := by
  induction s using lines_induction with
  | nil => cases hs
  | last l hn hl =>
    rw [trimmedLines_last hn hl]
    simpa using trim_ne_nil (List.mem_of_getLast? hs) hc
  | line l s hn ih =>
    have hne : s ≠ [] := by
      rintro rfl
      obtain rfl : '\n' = c := by simpa using hs
      exact absurd hc (by decide)
    have hlast : s.getLast? = some c := by
      rw [List.getLast?_append, List.getLast?_cons] at hs
      cases h : s.getLast? with
      | none => exact absurd (List.getLast?_eq_none_iff.1 h) hne
      | some d => simpa [h] using hs
    obtain ⟨m, ls, hm⟩ := List.exists_cons_of_ne_nil (trimmedLines_ne_nil hne)
    have hrest := ih hlast
    rw [trimmedLines_line hn, hm, List.getLast?_cons_cons, ← hm]
    exact hrest

end ComponentSheet.Text
