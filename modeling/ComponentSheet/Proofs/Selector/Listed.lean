import ComponentSheet.Proofs.Selector.Ending
import ComponentSheet.Selector.Entries

/-! Writing the entries of a selector list back. They are read again as they were, unless the
backslash at the end of one takes in the comma behind it. -/
namespace ComponentSheet.Selector

open Reading

variable {b : Bool} {e p s v w x y z : Text} {g : Segment} {l : List Segment} {q : Text}
  {qs : List Text}

/-- No segment of the text is a comma, and none goes on to the text `v` behind it. -/
inductive Uncut (v : Text) : Bool → Text → Prop
  | nil {b : Bool} : Uncut v b []
  | cons {b : Bool} {g : Segment} {s : Text} (h : g.Reads b (s ++ v)) (hc : g ≠ .token .comma)
      (hs : Uncut v (g.continues b) s) : Uncut v b (g.text ++ s)

theorem reads_comma (b : Bool) (v : Text) : (Segment.token .comma).Reads b v :=
  reads_token trivial trivial (fun _ _ => Token.noConfusion)

/-- A text is uncut, or uncut up to a comma. -/
theorem exists_uncut (b : Bool) (s : Text) :
    ∃ p y, s = p ++ y ∧ Uncut y b p ∧ (y = [] ∨ ∃ v, y = ',' :: v) := by
  fun_induction segmentsFrom b s with
  | case1 b => exact ⟨[], [], rfl, .nil, Or.inl rfl⟩
  | case2 b c s r ih =>
    have hr : r.1.Reads b r.2 := reads_segment b c s
    have hs : r.1.text ++ r.2 = c :: s := segment_append b c s
    by_cases hc : r.1 = .token .comma
    · refine ⟨[], c :: s, rfl, .nil, Or.inr ⟨r.2, ?_⟩⟩
      rw [← hs, hc]
      rfl
    · obtain ⟨p, y, hp, hu, hy⟩ := ih
      refine ⟨r.1.text ++ p, y, by rw [← hs, hp, List.append_assoc], .cons ?_ hc hu, hy⟩
      rwa [← hp]

theorem exists_pieces (l : List Segment) : ∃ q qs, pieces l = q :: qs := by
  fun_cases pieces l <;> exact ⟨_, _, rfl⟩

theorem pieces_cons (hc : g ≠ .token .comma) (h : pieces l = q :: qs) :
    pieces (g :: l) = (g.text ++ q) :: qs := by
  rw [pieces, h]
  exact hc

theorem pieces_uncut (h : Uncut y b p) (hy : ∀ b, pieces (segmentsFrom b y) = q :: qs) :
    pieces (segmentsFrom b (p ++ y)) = (p ++ q) :: qs := by
  induction h with
  | nil => exact hy _
  | cons h hc hs ih =>
    rw [List.append_assoc, segmentsFrom_of_reads h, pieces_cons hc ih, List.append_assoc]

/-- What a text without commas adds to a list. -/
def listed (p : Text) : List Text :=
  [p.trim].filter (· ≠ [])

theorem listed_nil (h : p.trim = []) : listed p = [] := by
  simp [listed, h]

theorem listed_trim (h : p.trim ≠ []) : listed p = [p.trim] := by
  simp [listed, h]

theorem entries_last (h : Uncut [] false p) : entries p = listed p := by
  have hp : pieces (segmentsFrom false (p ++ [])) = (p ++ []) :: [] :=
    pieces_uncut h fun b => by rw [segmentsFrom]; rfl
  rw [List.append_nil] at hp
  rw [entries, segments, hp, listed]
  rfl

theorem entries_comma (h : Uncut (',' :: v) false p) :
    entries (p ++ ',' :: v) = listed p ++ entries v := by
  have hy (b : Bool) : pieces (segmentsFrom b (',' :: v)) = [] :: pieces (segments v) := by
    have hs := segmentsFrom_of_reads (reads_comma b v)
    rw [Segment.text, Token.lexeme, List.singleton_append] at hs
    rw [hs, pieces]
    rfl
  rw [entries, segments, pieces_uncut h hy, List.append_nil, List.map_cons, listed, entries]
  simp only [List.filter_cons, List.filter_nil]
  split <;> rfl

/-- The text `e` ends with `f`, and is read up to there whatever follows. Compounds continue there
as `c` says. -/
structure EndsWith (b : Bool) (e : Text) (c : Bool) (f : Text) : Prop where
  ne_nil : f ≠ []
  suffix : f <:+ e
  opensEscape_eq : opensEscape e = opensEscape f
  uncut : ∀ y r, Uncut y c (f ++ r) → Uncut y b (e ++ r)

theorem EndsWith.cons {c : Bool} {f : Text} (h : EndsWith (g.continues b) s c f)
    (hr : g.Reads b (s ++ v)) (hc : g ≠ .token .comma) : EndsWith b (g.text ++ s) c f := by
  obtain ⟨d, t, rfl⟩ := List.exists_cons_of_ne_nil (l := s) <| by
    rintro rfl
    exact h.ne_nil (List.suffix_nil.1 h.suffix)
  refine ⟨h.ne_nil, h.suffix.trans (List.suffix_append _ _), ?_, fun y r hu => ?_⟩
  · rw [opensEscape_append (opensEscape_of_reads hr (by simp)), h.opensEscape_eq]
  · rw [List.append_assoc]
    refine .cons ?_ hc (h.uncut y r hu)
    exact hr.of_alike (Or.inl rfl)

theorem append_cases {a b c d : Text} (h : a ++ b = c ++ d) :
    (∃ f, f ≠ [] ∧ c = a ++ f ∧ b = f ++ d) ∨ ∃ f, a = c ++ f ∧ d = f ++ b := by
  rcases List.append_eq_append_iff.1 h with ⟨f, hc, hb⟩ | hd
  · by_cases hf : f = []
    · subst hf
      exact Or.inr ⟨[], by simp [hc], by simp [hb]⟩
    · exact Or.inl ⟨f, hf, hc, hb⟩
  · exact Or.inr hd

/-- A part of an uncut text ends in some segment of the text. -/
theorem exists_endsWith (h : Uncut v b p) (hp : p = e ++ w) (he : e ≠ []) :
    ∃ (c : Bool) (f x s : Text) (g : Segment), EndsWith b e c f ∧ g.text = f ++ x ∧ w = x ++ s ∧
      g ≠ .token .comma ∧ g.Reads c (s ++ v) := by
  induction h generalizing e with
  | nil => exact absurd (List.append_eq_nil_iff.1 hp.symm).1 he
  | @cons b g s hr hc hs ih =>
    rcases append_cases hp with ⟨f, hf, rfl, rfl⟩ | ⟨x, hx, hw⟩
    · obtain ⟨c, f', x, t, g', hf', ht⟩ := ih rfl hf
      rw [List.append_assoc] at hr
      exact ⟨c, f', x, t, g', hf'.cons hr hc, ht⟩
    · exact ⟨b, e, x, s, g, ⟨he, List.suffix_rfl, rfl, fun y r h => h⟩, hx, hw, hc, hr⟩

theorem uncut_singleton (h : g.Reads b y) (hc : g ≠ .token .comma) : Uncut y b g.text := by
  have hu := Uncut.cons (s := []) h hc .nil
  rwa [List.append_nil] at hu

/-- What starts as a segment that is no comma is no comma. -/
theorem ne_comma {g' : Segment} (h : g.Reads b v) (hc : g ≠ .token .comma) (ht : g.text = e ++ x)
    (ht' : g'.text = e ++ y) (he : e ≠ []) : g' ≠ .token .comma := by
  rintro rfl
  obtain ⟨c, e, rfl⟩ := List.exists_cons_of_ne_nil he
  obtain ⟨rfl, hnil⟩ := List.cons.inj ht'
  obtain ⟨rfl, rfl⟩ := List.append_eq_nil_iff.1 hnil.symm
  exact hc (reads_unique h (reads_comma b (x ++ v)) (by rw [ht]; rfl)).1

/-- What is read from the front of a segment and any other text. -/
theorem exists_reads_part (h : g.Reads b v) (ht : g.text = e ++ x) (he : e ≠ []) (z : Text) :
    ∃ (g' : Segment) (u w : Text), g'.Reads b w ∧ g'.text = e ++ u ∧ z = u ++ w := by
  obtain ⟨d, t, hd⟩ := List.exists_cons_of_ne_nil (List.append_ne_nil_of_left_ne_nil he z)
  have hr := reads_segment b d t
  obtain ⟨u, hu, hz⟩ := exists_of_reads h hr ht ((segment_append b d t).trans hd.symm)
  exact ⟨_, u, _, hr, hu, hz⟩

/-- A part of an uncut text is uncut for itself. -/
theorem uncut_take (h : Uncut v b (e ++ w)) : Uncut [] b e := by
  by_cases he : e = []
  · subst he
    exact .nil
  obtain ⟨c, f, x, s, g, hf, ht, -, hc, hr⟩ := exists_endsWith h rfl he
  obtain ⟨g', u, w, hr', hu, hz⟩ := exists_reads_part hr ht hf.ne_nil []
  obtain ⟨rfl, rfl⟩ := List.append_eq_nil_iff.1 hz.symm
  have hl := hf.uncut [] [] (hu ▸ uncut_singleton hr' (ne_comma hr hc ht hu hf.ne_nil))
  rwa [List.append_nil] at hl

/-- Without the blanks at its end, text that stands in front of other text can stand in front of a
comma. -/
theorem uncut_comma (h : Uncut v b (e ++ w)) (hv : v ≠ []) (hw : w.all isBlank)
    (hl : e.trimEnd = e) (ho : opensEscape e = false) (z : Text) : Uncut (',' :: z) b e := by
  by_cases he : e = []
  · subst he
    exact .nil
  obtain ⟨c, f, x, s, g, hf, ht, rfl, hc, hr⟩ := exists_endsWith h rfl he
  rw [List.all_append, Bool.and_eq_true] at hw
  have hlf : f.trimEnd = f := by
    apply Text.trimEnd_eq_self
    intro d hd
    apply Text.getLast_trimEnd e
    obtain ⟨t, rfl⟩ := hf.suffix
    rw [hl, List.getLast?_append, hd]
    rfl
  obtain ⟨g', hg, hr'⟩ := exists_reads_comma hr (by simp [hv]) ht hw.1 hf.ne_nil hlf
    (hf.opensEscape_eq ▸ ho) z
  rw [← List.append_nil f] at hg
  have hu := hf.uncut _ [] (hg ▸ uncut_singleton hr' (ne_comma hr hc ht hg hf.ne_nil))
  rwa [List.append_nil] at hu

/-- Behind an escape the next comma is no comma of the list. -/
theorem uncut_escaped (h : Uncut [] b e) (ho : opensEscape e) (z : Text) :
    ∃ r y, z = r ++ y ∧ Uncut y b (e ++ ',' :: r) ∧ (y = [] ∨ ∃ v, y = ',' :: v) := by
  have he : e ≠ [] := by
    rintro rfl
    cases ho
  obtain ⟨c, f, x, s, g, hf, ht, hx, hc, hr⟩ := exists_endsWith h (List.append_nil e).symm he
  obtain ⟨g', u, w, hr', hu, hz⟩ := exists_reads_part hr ht hf.ne_nil (',' :: z)
  cases u with
  | nil =>
    rw [List.append_nil] at hu
    rw [List.nil_append] at hz
    have hn := opensEscape_of_reads hr' (by simp [← hz])
    rw [hu, ← hf.opensEscape_eq, ho] at hn
    cases hn
  | cons d u =>
    obtain ⟨rfl, rfl⟩ := List.cons.inj hz
    obtain ⟨p, y, rfl, hp, hy⟩ := exists_uncut (g'.continues c) w
    refine ⟨u ++ p, y, by simp, hf.uncut y _ ?_, hy⟩
    have hcons := Uncut.cons hr' (ne_comma hr hc ht hu hf.ne_nil) hp
    rw [hu] at hcons
    simpa using hcons

/-- A text as an entry of a list is. -/
structure Entry (e : Text) : Prop where
  ne_nil : e ≠ []
  trim_eq : e.trim = e
  uncut : Uncut [] false e

theorem Entry.listed_eq (h : Entry e) : listed e = [e] := by
  have hne : e.trim ≠ [] := by
    rw [h.trim_eq]
    exact h.ne_nil
  rw [listed_trim hne, h.trim_eq]

theorem entries_trimStart (s : Text) : entries s.trimStart = entries s := by
  cases s with
  | nil => rfl
  | cons c s =>
    by_cases hc : isBlank c
    · have hs : segments (c :: s) =
          .blanks (c :: s.takeWhile isBlank) :: segments (s.dropWhile isBlank) := by
        rw [segments, segmentsFrom, segment_blank false hc]
        rfl
      have ht : Text.trimStart (c :: s) = s.dropWhile isBlank := List.dropWhile_cons_of_pos hc
      have hb : (c :: s.takeWhile isBlank).all isBlank := by simp [hc]
      obtain ⟨q, qs, hq⟩ := exists_pieces (segments (s.dropWhile isBlank))
      rw [ht, entries, entries, hs, pieces_cons (by simp) hq, hq, List.map_cons, List.map_cons,
        Segment.text, Text.trim_append_left hb]
    · rw [Text.trimStart_eq_self]
      simpa using hc

theorem entries_blanks (hw : w.all isBlank) (s : Text) : entries (w ++ s) = entries s := by
  rw [← entries_trimStart, Text.trimStart_append hw, entries_trimStart]

/-- The entries of a list. All but the last one have stood in front of a comma; there they stay what
they are, unless they end with an escape. -/
inductive Listing : List Text → Prop
  | nil : Listing []
  | last {e : Text} (h : Entry e) : Listing [e]
  | cons {e : Text} {l : List Text} (h : Entry e)
      (hc : opensEscape e = false → ∀ z, Uncut (',' :: z) false e) (hl : Listing l) :
      Listing (e :: l)

/-- What trimming leaves of an uncut text without blanks in front. -/
theorem uncut_trim (h : Uncut y false p) (hp : ∀ c ∈ p.head?, isBlank c = false) :
    Uncut [] false p.trim ∧
      (y ≠ [] → opensEscape p.trim = false → ∀ z, Uncut (',' :: z) false p.trim) := by
  have ht : p.trim = p.trimEnd := by rw [Text.trim, Text.trimStart_eq_self hp]
  obtain ⟨w, hw, hb⟩ := Text.exists_eq_trimEnd p
  rw [← ht] at hw
  have hu : Uncut y false (p.trim ++ w) := hw ▸ h
  refine ⟨uncut_take hu, fun hy ho z => uncut_comma hu hy hb ?_ ho z⟩
  rw [ht, Text.trimEnd_eq_self (Text.getLast_trimEnd p)]

theorem listing_entries (s : Text) : Listing (entries s) := by
  -- Blanks in front are put aside first: the rest starts outside a compound, too.
  rw [← entries_trimStart s]
  have hs : s.trimStart.length ≤ s.length := Text.length_dropWhile_le isBlank s
  have hh := Text.head_trimStart s
  obtain ⟨p, y, hpy, hp, hy⟩ := exists_uncut false s.trimStart
  rw [hpy] at hs hh ⊢
  obtain ⟨hu, hc⟩ := uncut_trim hp fun c hc => hh c (by rw [List.head?_append, hc]; rfl)
  rcases hy with rfl | ⟨v, rfl⟩
  · rw [List.append_nil, entries_last hp]
    by_cases hne : p.trim = []
    · rw [listed_nil hne]
      exact .nil
    · rw [listed_trim hne]
      exact .last ⟨hne, Text.trim_trim p, hu⟩
  · have hv : v.length < s.length := by
      simp at hs
      omega
    rw [entries_comma hp]
    by_cases hne : p.trim = []
    · rw [listed_nil hne]
      exact listing_entries v
    · rw [listed_trim hne]
      exact .cons ⟨hne, Text.trim_trim p, hu⟩ (hc (by simp)) (listing_entries v)
termination_by s.length

theorem ofEntries_singleton (e : Text) : ofEntries [e] = e := by
  simp [ofEntries, Text.join]

theorem ofEntries_cons_cons (e f : Text) (l : List Text) :
    ofEntries (e :: f :: l) = e ++ ',' :: '\n' :: ofEntries (f :: l) := by
  simp [ofEntries, Text.join]

theorem entries_line (s : Text) : entries ('\n' :: s) = entries s :=
  entries_blanks (w := ['\n']) (by decide) s

/-- If an entry ends with an escape, the comma behind it becomes part of the entry. -/
theorem exists_entries_escaped (h : Entry e) (ho : opensEscape e) (z : Text) :
    ∃ r l, entries (e ++ ',' :: z) = (e ++ ',' :: r) :: l := by
  obtain ⟨r, y, rfl, hu, hy⟩ := uncut_escaped h.uncut ho z
  have ht : (e ++ ',' :: r).trim = e ++ ',' :: r.trimEnd := by
    have hs : (e ++ ',' :: r).trimStart = e ++ ',' :: r := by
      rw [Text.trimStart_append_cons (by decide), Text.trimStart_eq_self]
      exact (Text.trim_eq_self_iff.1 h.trim_eq).1
    rw [Text.trim, hs, Text.trimEnd_append_cons (by decide)]
  have hl : listed (e ++ ',' :: r) = [e ++ ',' :: r.trimEnd] := by simp [listed, ht]
  rcases hy with rfl | ⟨v, rfl⟩
  · refine ⟨r.trimEnd, [], ?_⟩
    rw [List.append_nil, entries_last hu, hl]
  · refine ⟨r.trimEnd, entries v, ?_⟩
    rw [← List.cons_append, ← List.append_assoc, entries_comma hu, hl]
    rfl

theorem entries_ofEntries_listing {l : List Text} (h : Listing l) :
    entries (ofEntries l) = l ↔ ∀ e ∈ l.dropLast, opensEscape e = false := by
  have hsingle {e : Text} (he : Entry e) : entries (ofEntries [e]) = [e] := by
    rw [ofEntries_singleton, entries_last he.uncut, he.listed_eq]
  induction h with
  | nil => exact iff_of_true (entries_last .nil) (by simp)
  | last he => exact iff_of_true (hsingle he) (by simp)
  | @cons e l he hc hl ih =>
    cases l with
    | nil => exact iff_of_true (hsingle he) (by simp)
    | cons f l =>
      rw [ofEntries_cons_cons, List.dropLast_cons_cons, List.forall_mem_cons]
      refine Iff.trans ?_ (and_congr_right fun _ => ih)
      cases ho : opensEscape e with
      | true =>
        -- The first entry that is read goes on behind the comma, so that it is longer than `e`.
        obtain ⟨r, m, hm⟩ := exists_entries_escaped he ho ('\n' :: ofEntries (f :: l))
        rw [hm]
        simp
      | false =>
        rw [entries_comma (hc ho _), he.listed_eq, entries_line]
        simp

/-- A selector list that is written back with one entry a line is read again as it was, exactly if
no entry but the last one ends with an odd number of backslashes. -/
theorem entries_ofEntries_iff (s : Text) :
    entries (ofEntries (entries s)) = entries s ↔
      ∀ e ∈ (entries s).dropLast, finalBackslashes e % 2 = 0 := by
  rw [entries_ofEntries_listing (listing_entries s)]
  simp only [opensEscape_eq_false_iff]

/-- The blank at the end of an entry can be part of its last name. -/
theorem entries_ofEntries_ne :
    let s := ".a\\ , b".toList
    entries s = [".a\\".toList, "b".toList] ∧
      entries (ofEntries (entries s)) = [".a\\,\nb".toList] := by
  decide +kernel

end ComponentSheet.Selector
