import ComponentSheet.Proofs.Sheet.Prelude
import ComponentSheet.Proofs.Text.Lines
import ComponentSheet.Sheet.Printing

/-! What the texts in printed rows lead over, and what is left of them when they are trimmed. -/
namespace ComponentSheet

open Text

variable {c : Char} {s t u : Text} {l : Text} {ls : List Text} {p : Place} {n d : Nat}

/-- A trimmed text that stands as one prelude: without comments, with all its strings and brackets
closed, and with nothing outside brackets that would end it. -/
structure Plain (s : Text) : Prop where
  trimmed : s.trim = s
  passes : Passes (.outside 0) s (.outside 0)

instance : Decidable (Plain s) :=
  decidable_of_iff (s.trim = s ∧ Passes (.outside 0) s (.outside 0))
    ⟨fun h => ⟨h.1, h.2⟩, fun h => ⟨h.1, h.2⟩⟩

theorem eq_of_mem_indentation (h : c ∈ indentation n) : c = ' ' :=
  List.eq_of_mem_replicate h

theorem all_indentation (n : Nat) : (indentation n).all isBlank := by
  rw [List.all_eq_true]
  intro c hc
  rw [eq_of_mem_indentation hc]
  decide

theorem notMem_indentation (hc : c ≠ ' ') : c ∉ indentation n :=
  fun h => hc (eq_of_mem_indentation h)

theorem passes_indentation (hp : p.isStill) : Passes p (indentation n) p :=
  .blanks hp (all_indentation n) (notMem_indentation (by decide))

theorem selectorText_eq (n : Nat) (s : Text) :
    selectorText n s = join ['\n'] ((trimmedLines s).map (indentation n ++ ·)) := by
  rw [selectorText, trimmedLines, List.map_map]
  rfl

theorem selectorText_last (hn : '\n' ∉ l) (hl : l ≠ []) :
    selectorText n l = indentation n ++ l.trim := by
  rw [selectorText_eq, trimmedLines_last hn hl]
  simp [join]

theorem selectorText_line (hn : '\n' ∉ l) (hs : s ≠ []) :
    selectorText n (l ++ '\n' :: s) = indentation n ++ l.trim ++ '\n' :: selectorText n s := by
  obtain ⟨m, ms, hm⟩ := List.exists_cons_of_ne_nil (trimmedLines_ne_nil hs)
  rw [selectorText_eq, trimmedLines_line hn, selectorText_eq, hm, List.map_cons, List.map_cons,
    join_cons_cons]

/-- At a line feed that leads on, a line can be trimmed and the next one indented. -/
theorem Place.of_next_line (h : (p.next '\n').after s = .outside d) :
    p.isSettled ∧ (p.next '\n').isStill := by
  cases p with
  | outside d => exact ⟨rfl, by rw [outside_next_blank d (by decide)]; rfl⟩
  | string quote d =>
    rw [string_next_blank quote d (by decide), if_pos rfl, ended_after] at h
    cases h
  | escape quote d => exact ⟨rfl, rfl⟩
  | ended =>
    rw [show Place.ended.next '\n' = .ended from rfl, ended_after] at h
    cases h

theorem passes_selectorText (hp : p.isStill) (h : Passes p s (.outside d))
    (hl : s.getLast? ≠ some '\n') : Passes p (selectorText n s) (.outside d) := by
  induction s using lines_induction generalizing p with
  | nil => exact h
  | last l hn hne =>
    rw [selectorText_last hn hne]
    exact (passes_indentation hp).append (h.trimLine hp hn rfl) (.inl (by
      intro hlast
      exact absurd (eq_of_mem_indentation (List.mem_of_getLast? hlast)) (by decide)))
  | line l s hn ih =>
    have hs : s ≠ [] := by
      rintro rfl
      simp at hl
    obtain ⟨q, hq, hrest⟩ := h.split
    obtain ⟨hsettled, hstill⟩ := Place.of_next_line hrest.after
    have hlast : s.getLast? ≠ some '\n' := by
      rw [List.getLast?_append, List.getLast?_cons] at hl
      cases hl' : s.getLast? with
      | none => simp
      | some c => simpa [hl'] using hl
    have hfeed : Passes q ['\n'] (q.next '\n') := ⟨rfl, by simp [Place.opensComment]⟩
    rw [selectorText_line hn hs, List.append_assoc]
    refine (passes_indentation hp).append ((hq.trimLine hp hn hsettled).append
      (hfeed.append (ih hstill hrest.tail hlast) (.inl (by simp))) (.inr (by simp))) (.inl ?_)
    intro hlast
    exact absurd (eq_of_mem_indentation (List.mem_of_getLast? hlast)) (by decide)

theorem join_append (u l : Text) (ls : List Text) :
    join ['\n'] ((u ++ l) :: ls) = u ++ join ['\n'] (l :: ls) := by
  cases ls with
  | nil => simp [join]
  | cons m ls => rw [join_cons_cons, join_cons_cons, List.append_assoc]

/-- An indented line that is trimmed but for that does not end with a blank of another kind. -/
theorem getLast_indented (hl : l.trim = l) (hc : isBlank c) (hs : c ≠ ' ') :
    (indentation n ++ l).getLast? ≠ some c := by
  intro h
  rw [List.getLast?_append, Option.or_eq_some_iff] at h
  rcases h with h | ⟨-, h⟩
  · have hb := (trim_eq_self_iff.1 hl).2 c h
    simp [hc] at hb
  · exact hs (eq_of_mem_indentation (List.mem_of_getLast? h))

/-- Lines of which all but the first are indented. -/
def hanging (n : Nat) (l : Text) (ls : List Text) : Text :=
  join ['\n'] (l :: ls.map (indentation n ++ ·))

theorem selectorText_eq_hanging (h : trimmedLines s = l :: ls) (n : Nat) :
    selectorText n s = indentation n ++ hanging n l ls := by
  rw [selectorText_eq, h, List.map_cons, join_append, hanging]

theorem head_hanging (h : l ≠ []) (n : Nat) (ls : List Text) :
    (hanging n l ls).head? = l.head? := by
  obtain ⟨c, l, rfl⟩ := List.exists_cons_of_ne_nil h
  rw [hanging]
  cases ls <;> simp [join]

theorem getLast_hanging (h : (l :: ls).getLast? = some t) (ht : t ≠ []) (n : Nat) :
    (hanging n l ls).getLast? = t.getLast? := by
  cases ls with
  | nil => exact getLast_join h ht
  | cons m ls =>
    have hlast : (l :: (m :: ls).map (indentation n ++ ·)).getLast? =
        some (indentation n ++ t) := by
      rw [List.getLast?_cons_cons] at h
      rw [List.map_cons, List.getLast?_cons_cons, ← List.map_cons, List.getLast?_map, h]
      rfl
    rw [hanging, getLast_join hlast (by simp [ht]), List.getLast?_append,
      List.getLast?_eq_some_getLast ht, Option.some_or]

theorem trim_hanging (h : ∀ m ∈ l :: ls, m.trim = m) (hl : l ≠ [])
    (ht : (l :: ls).getLast? ≠ some []) (n : Nat) : (hanging n l ls).trim = hanging n l ls := by
  obtain ⟨t, hlast⟩ : ∃ t, (l :: ls).getLast? = some t :=
    ⟨_, List.getLast?_eq_some_getLast (by simp)⟩
  have htne : t ≠ [] := fun hnil => ht (hnil ▸ hlast)
  rw [trim_eq_self_iff, head_hanging hl, getLast_hanging hlast htne]
  exact ⟨(trim_eq_self_iff.1 (h l List.mem_cons_self)).1,
    (trim_eq_self_iff.1 (h t (List.mem_of_getLast? hlast))).2⟩

theorem lines_hanging (h : ∀ m ∈ l :: ls, m.trim = m ∧ '\n' ∉ m)
    (ht : (l :: ls).getLast? ≠ some []) (n : Nat) :
    lines (hanging n l ls) = l :: ls.map (indentation n ++ ·) := by
  rw [List.forall_mem_cons] at h
  refine lines_join ?_ ?_
  · rw [List.forall_mem_cons, List.forall_mem_map]
    refine ⟨⟨h.1.2, fun hr => ?_⟩, fun m hm => ⟨?_, ?_⟩⟩
    · have hb := (trim_eq_self_iff.1 h.1.1).2 _ hr
      exact absurd hb (by decide)
    · rw [List.mem_append, not_or]
      exact ⟨notMem_indentation (by decide), (h.2 m hm).2⟩
    · exact getLast_indented (h.2 m hm).1 (by decide) (by decide)
  · cases ls with
    | nil => exact ht
    | cons m ls =>
      rw [List.getLast?_cons_cons] at ht
      rw [List.map_cons, List.getLast?_cons_cons, ← List.map_cons, List.getLast?_map]
      cases hm : (m :: ls).getLast? with
      | none => simp
      | some t =>
        have htne : t ≠ [] := fun hnil => ht (hnil ▸ hm)
        simp [htne]

theorem trimmedLines_hanging (h : ∀ m ∈ l :: ls, m.trim = m ∧ '\n' ∉ m)
    (ht : (l :: ls).getLast? ≠ some []) (n : Nat) : trimmedLines (hanging n l ls) = l :: ls := by
  have hls : ∀ m ∈ ls, (trim ∘ (indentation n ++ ·)) m = m := by
    intro m hm
    rw [Function.comp_apply, trim_append_left (all_indentation n),
      (h m (List.mem_cons_of_mem _ hm)).1]
  rw [trimmedLines, lines_hanging h ht, List.map_cons, List.map_map, (h l List.mem_cons_self).1,
    List.map_congr_left hls, List.map_id']

/-- What is read of the rows of a trimmed selector: it has the lines of the selector, and its first
character. -/
theorem exists_trim_selectorText (h : s.trim = s) (hne : s ≠ []) (n : Nat) :
    ∃ r, (selectorText n s).trim = r ∧ r ≠ [] ∧ r.head? = s.head? ∧
      trimmedLines r = trimmedLines s := by
  -- Only the first line loses its indentation, and the last one has a character that is no blank,
  -- so no line is dropped.
  obtain ⟨hfirst, hfinal⟩ := trim_eq_self_iff.1 h
  obtain ⟨c, s', rfl⟩ := List.exists_cons_of_ne_nil hne
  obtain ⟨l, ls, hlines, hhead⟩ := head_trimmedLines (s := s') (hfirst c rfl)
  have hl : l ≠ [] := by
    rintro rfl
    cases hhead
  have hmem : ∀ m ∈ l :: ls, m.trim = m ∧ '\n' ∉ m :=
    fun m hm => of_mem_trimmedLines (hlines ▸ hm)
  have hlast : (l :: ls).getLast? ≠ some [] := by
    rw [← hlines]
    exact getLast_trimmedLines (List.getLast?_eq_some_getLast hne)
      (hfinal _ (List.getLast?_eq_some_getLast hne))
  have hhanging : (hanging n l ls).head? = some c := by rw [head_hanging hl, hhead]
  refine ⟨hanging n l ls, ?_, ?_, hhanging, ?_⟩
  · rw [selectorText_eq_hanging hlines, trim_append_left (all_indentation n),
      trim_hanging (fun m hm => (hmem m hm).1) hl hlast]
  · intro hnil
    rw [hnil] at hhanging
    cases hhanging
  · rw [trimmedLines_hanging hmem hlast, hlines]

/-- What is printed behind the name of an at-rule, up to its semicolon or brace. -/
theorem exists_printed_params (h : Plain s) (hv : t = [] ∨ t = [' ']) :
    ∃ r : Text, (if s = [] then [] else ' ' :: s) ++ t = r ∧ Passes (.outside 0) r (.outside 0) ∧
      r.trim = s ∧ ∀ c ∈ r.head?, c = ' ' := by
  have hblank : t.all isBlank := by rcases hv with rfl | rfl <;> decide
  have hstar : t.head? ≠ some '*' := by rcases hv with rfl | rfl <;> decide
  refine ⟨_, rfl, ?_, ?_, ?_⟩
  · refine Passes.append ?_ (.blanks_outside 0 hblank) (.inr hstar)
    split
    · exact .nil _
    · exact (Passes.blanks_outside (s := [' ']) 0 (by decide)).append h.passes (.inl (by decide))
  · rw [trim_append_right hblank]
    split
    · rename_i hnil
      rw [hnil]
      rfl
    · exact (trim_append_left (u := [' ']) (by decide)).trans h.trimmed
  · split
    · rcases hv with rfl | rfl <;> simp
    · simp

namespace Declaration

/-- Whether a value ends with a mark of importance. -/
def endsImportant : Text → Bool
  | [] => false
  | c :: s => c == '!' && equalsIgnoringCase (Text.trim s) "important".toList || endsImportant s

theorem endsImportant_append (h : equalsIgnoringCase t.trim "important".toList) (s : Text) :
    endsImportant (s ++ '!' :: t) := by
  induction s with
  | nil =>
    simp only [List.nil_append, endsImportant, h, beq_self_eq_true, Bool.true_and, Bool.true_or]
  | cons c s ih => simp only [List.cons_append, endsImportant, ih, Bool.or_true]

theorem splitImportant_eq_self (h : endsImportant s = false) : splitImportant s = (s, false) := by
  rw [splitImportant]
  split
  · rename_i mark kept hcut
    rw [if_neg]
    intro he
    have hs : s = kept.reverse ++ '!' :: mark.reverse := by
      simpa using congrArg List.reverse (eq_of_cutAt? hcut)
    rw [hs, endsImportant_append he] at h
    cases h
  · rfl

theorem splitImportant_append (s : Text) :
    splitImportant (s ++ '!' :: "important".toList) = (s.trimEnd, true) := by
  have hcut : cutAt? '!' (s ++ '!' :: "important".toList).reverse =
      some ("important".toList.reverse, s.reverse) := by
    rw [List.reverse_append, List.reverse_cons, List.append_assoc]
    exact cutAt?_append (by decide)
  rw [splitImportant, hcut]
  simp only [List.reverse_reverse]
  exact if_pos (by decide)

theorem text_eq (x : Declaration) :
    x.text = x.property ++ ':' :: ' ' :: x.value ++
      if x.important then ' ' :: '!' :: "important".toList else [] := by
  rw [text, show ": ".toList = [':', ' '] from rfl,
    show " !important".toList = ' ' :: '!' :: "important".toList from rfl]
  simp only [List.append_assoc, List.cons_append, List.nil_append]

/-- What is read behind the colon of a printed declaration. -/
theorem splitImportant_printed {x : Declaration} (hv : x.value.trim = x.value)
    (hi : x.important = false → endsImportant x.value = false) :
    splitImportant (trim (' ' :: x.value ++
      if x.important then ' ' :: '!' :: "important".toList else [])) = (x.value, x.important) := by
  have hfront : Text.trim (' ' :: x.value) = x.value :=
    (trim_append_left (u := [' ']) (by decide)).trans hv
  cases h : x.important with
  | false =>
    rw [if_neg (by simp), List.append_nil, hfront]
    exact splitImportant_eq_self (hi h)
  | true =>
    have hback : trim (' ' :: x.value ++ [' ']) = x.value :=
      (trim_append_right (by decide)).trans hfront
    have hmark : trimEnd "important".toList = "important".toList := by decide
    rw [if_pos rfl, List.append_cons, trim, trimStart_append_cons (by decide),
      trimEnd_append_cons (by decide), hmark, splitImportant_append, ← trim, hback]

theorem exists_trim_text {x : Declaration} (hp : x.property.trim = x.property)
    (hv : x.value.trim = x.value) (hi : x.important = false → endsImportant x.value = false) :
    ∃ w : Text, x.text.trim = x.property ++ ':' :: w ∧
      splitImportant w.trim = (x.value, x.important) := by
  have hsplit := splitImportant_printed hv hi
  generalize hw : ' ' :: x.value ++
    (if x.important then ' ' :: '!' :: "important".toList else []) = w at hsplit
  have htext : x.text = x.property ++ ':' :: w := by
    rw [text_eq, ← hw, List.append_assoc, List.cons_append]
  have hstart : x.property.trimStart = x.property := trimStart_eq_self (trim_eq_self_iff.1 hp).1
  refine ⟨trimEnd w, ?_, by rw [trim_trimEnd, hsplit]⟩
  rw [htext, trim, trimStart_append_cons (by decide), hstart, trimEnd_append_cons (by decide)]

/-- A declaration is read of its printed form. -/
theorem ofText?_text {x : Declaration} (hp : x.property.trim = x.property) (hne : x.property ≠ [])
    (hc : ':' ∉ x.property) (hv : x.value.trim = x.value)
    (hi : x.important = false → endsImportant x.value = false) :
    ofText? x.text.trim = some x := by
  obtain ⟨w, hw, hsplit⟩ := exists_trim_text hp hv hi
  rw [hw, ofText?, cutAt?_append hc]
  simp only [hp, if_neg hne, hsplit]

theorem head_trim_text {x : Declaration} (hp : x.property.trim = x.property)
    (hne : x.property ≠ []) (hv : x.value.trim = x.value)
    (hi : x.important = false → endsImportant x.value = false) :
    x.text.trim.head? = x.property.head? := by
  obtain ⟨w, hw, -⟩ := exists_trim_text hp hv hi
  rw [hw, List.head?_append, List.head?_eq_some_head hne, Option.some_or]

end Declaration

end ComponentSheet
