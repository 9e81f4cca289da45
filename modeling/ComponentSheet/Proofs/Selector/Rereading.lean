import ComponentSheet.Proofs.Selector.Boundary

/-! Text put together from segments is cut into the same segments again. -/
namespace ComponentSheet.Selector

open Reading

variable {b : Bool} {c : Char} {s v w : Text} {t : Token} {g g' : Segment} {k : Combinator}
  {l m : List Segment}

/-- The second text starts as the first one does, or with the mark of a class where the first one
starts with the mark of an id or of a pseudo-class. -/
def StartsAlike (v w : Text) : Prop :=
  w.head? = v.head? ∨ (v.head? = some '#' ∨ v.head? = some ':') ∧ w.head? = some '.'

theorem startsAlike_append (hs : s ≠ []) (v w : Text) : StartsAlike (s ++ v) (s ++ w) := by
  obtain ⟨c, s, rfl⟩ := List.exists_cons_of_ne_nil hs
  exact Or.inl rfl

theorem Token.Stops.of_alike (h : t.Stops v) (hw : StartsAlike v w) : t.Stops w := by
  rcases hw with hw | ⟨hv, hw⟩
  · exact h.of_head hw
  · have hne : v ≠ [] := by
      rintro rfl
      simp at hv
    exact h.of_boundary hne (by simp [hw, isNameChar]) (by simp [hw]) (by simp [hw])

theorem StartsAlike.takeWhile (h : StartsAlike v w) (hv : v.takeWhile isBlank = []) :
    w.takeWhile isBlank = [] := by
  have hd : isBlank '.' = false := by decide
  cases w with
  | nil => rfl
  | cons d w =>
    rcases h with h | ⟨-, h⟩
    · obtain ⟨v, rfl⟩ := List.head?_eq_some_iff.1 h.symm
      simpa [List.takeWhile_cons] using hv
    · cases h
      simp [hd]

theorem StartsAlike.startsCompound (h : StartsAlike v w) : startsCompound w = startsCompound v := by
  rcases h with h | ⟨hv, hw⟩
  · cases v with
    | nil => rw [List.head?_eq_none_iff.1 h]
    | cons c v =>
      obtain ⟨w, rfl⟩ := List.head?_eq_some_iff.1 h
      rfl
  · obtain ⟨w, rfl⟩ := List.head?_eq_some_iff.1 hw
    rcases hv with hv | hv
    · obtain ⟨v, rfl⟩ := List.head?_eq_some_iff.1 hv
      rfl
    · obtain ⟨v, rfl⟩ := List.head?_eq_some_iff.1 hv
      rfl

theorem StartsAlike.head_name (h : StartsAlike v w) (hv : v.head?.any isNameChar = false) :
    w.head?.any isNameChar = false := by
  rcases h with h | ⟨-, h⟩
  · rwa [h]
  · simp [h, isNameChar]

theorem StartsAlike.append (h : StartsAlike v w) (s : Text) : StartsAlike (s ++ v) (s ++ w) := by
  cases s with
  | nil => exact h
  | cons c s => exact Or.inl rfl

/-- The segment is what is read at the front of its text with `v` behind it. -/
def Segment.Reads (b : Bool) (g : Segment) (v : Text) : Prop :=
  ∃ c s, g.text ++ v = c :: s ∧ Reading.segment b c s = (g, v)

theorem segmentsFrom_of_reads (h : g.Reads b v) :
    segmentsFrom b (g.text ++ v) = g :: segmentsFrom (g.continues b) v := by
  obtain ⟨c, s, hs, hr⟩ := h
  rw [hs, segmentsFrom, hr]

theorem reads_segment (b : Bool) (c : Char) (s : Text) :
    (segment b c s).1.Reads b (segment b c s).2 :=
  ⟨c, s, segment_append b c s, rfl⟩

theorem Segment.Reads.formed (h : g.Reads b v) : g.Formed ∧ g.Stops v := by
  obtain ⟨c, s, -, hr⟩ := h
  have hf := segment_formed b c s
  rwa [hr] at hf

theorem Segment.Reads.text_ne_nil (h : g.Reads b v) : g.text ≠ [] := by
  obtain ⟨c, s, -, hr⟩ := h
  have hs := segment_ne_nil b c s
  rwa [hr] at hs

theorem reads_token (hf : t.Formed) (hv : t.Stops v) (hk : ∀ k w, t ≠ .combinator k w) :
    (Segment.token t).Reads b v := by
  obtain ⟨c, x, hl, hb, ht⟩ := token_of_formed hf hv hk
  refine ⟨c, x ++ v, by rw [Segment.text, hl, List.cons_append], ?_⟩
  rw [segment_not_blank b hb, ht]

theorem reads_className {n : Text} (hn : n.head?.any isNameChar) (h : EndsName n v) (b : Bool) :
    (Segment.token (.className n)).Reads b v :=
  reads_token hn h (fun _ _ => Token.noConfusion)

theorem not_combinator_pseudo {colons : Text} {mk : Text → Option Text → Token}
    (h : ∀ n a, mk n a ≠ .combinator k w) (s : Text) :
    (pseudo colons mk s).1 ≠ .combinator k w := by
  rcases pseudo_cases colons mk s with ⟨n, a, rest, hp, -⟩ | hp | ⟨n, v, hp, -⟩
  · exact hp ▸ h n (some a)
  · rw [hp]
    nofun
  · exact hp ▸ h n none

theorem not_combinator_named (s : Text) : (named s).1 ≠ .combinator k w := by
  rcases named_cases s with ⟨a, rest, hp, -⟩ | ⟨rest, hp, -⟩ | ⟨v, hp, -⟩
  all_goals
    rw [hp]
    nofun

theorem sign_of_token (h : (token c s).1 = .combinator k w) :
    k.sign = [c] ∧ ∀ s', token c s' = sign k s' := by
  revert h
  fun_cases token c s <;> intro h
  case case1 | case2 | case3 =>
    subst c
    cases h
    exact ⟨rfl, fun _ => rfl⟩
  case case11 => exact absurd h (not_combinator_pseudo (fun _ _ => Token.noConfusion) _)
  case case12 => exact absurd h (not_combinator_pseudo (fun _ _ => Token.noConfusion) _)
  case case13 => exact absurd h (not_combinator_named _)
  all_goals cases h

theorem takeWhile_dropWhile_isBlank (s : Text) : (s.dropWhile isBlank).takeWhile isBlank = [] := by
  rcases head_dropWhile_isBlank s with h | ⟨c, t, h, hc⟩
  · rw [h, List.takeWhile_nil]
  · rw [h]
    exact List.takeWhile_cons_of_neg (by simp [hc])

/-- Blanks end where a text that starts alike starts. -/
theorem StartsAlike.blanks (h : StartsAlike (s.dropWhile isBlank) w) :
    (s.takeWhile isBlank ++ w).takeWhile isBlank = s.takeWhile isBlank ∧
      (s.takeWhile isBlank ++ w).dropWhile isBlank = w := by
  have ht : w.takeWhile isBlank = [] := h.takeWhile (takeWhile_dropWhile_isBlank s)
  have hd : w.dropWhile isBlank = w := by
    have hw := List.takeWhile_append_dropWhile (p := isBlank) (l := w)
    rwa [ht, List.nil_append] at hw
  have hs : ∀ c ∈ s.takeWhile isBlank, isBlank c := List.all_eq_true.1 List.all_takeWhile
  rw [List.takeWhile_append_of_pos hs, List.dropWhile_append_of_pos hs, ht, hd, List.append_nil]
  exact ⟨rfl, rfl⟩

/-- What is read in front of a text is read in front of all that start alike. -/
theorem Segment.Reads.of_alike (h : g.Reads b v) (hw : StartsAlike v w) : g.Reads b w := by
  have hf := h.formed
  obtain ⟨c, s, hs, hr⟩ := h
  -- Blanks and signs take in the blanks behind them, so that `Stops` says nothing of what follows.
  by_cases hc : isBlank c
  · rw [segment_blank b hc] at hr
    obtain ⟨rfl, rfl⟩ := Prod.mk.inj hr
    obtain ⟨ht, hd⟩ := hw.blanks
    refine ⟨c, s.takeWhile isBlank ++ w, ?_, ?_⟩
    · split <;> rfl
    · rw [segment_blank b hc, ht, hd, hw.startsCompound]
  · have hc : isBlank c = false := by simpa using hc
    rw [segment_not_blank b hc] at hr
    obtain ⟨rfl, rfl⟩ := Prod.mk.inj hr
    by_cases hk : ∃ k u, (Reading.token c s).1 = .combinator k u
    · obtain ⟨k, u, hk⟩ := hk
      obtain ⟨hsign, ht⟩ := sign_of_token hk
      rw [ht s, sign] at hw ⊢
      obtain ⟨htake, hdrop⟩ := hw.blanks
      refine ⟨c, s.takeWhile isBlank ++ w, by simp [Segment.text, hsign], ?_⟩
      rw [segment_not_blank b hc, ht, sign, htake, hdrop]
    · simp only [not_exists] at hk
      exact reads_token hf.1 (Token.Stops.of_alike hf.2 hw) hk

theorem reads_unique (h : g.Reads b v) (h' : g'.Reads b w) (ht : g.text ++ v = g'.text ++ w) :
    g = g' ∧ v = w := by
  obtain ⟨c, s, hs, hr⟩ := h
  obtain ⟨c', s', hs', hr'⟩ := h'
  obtain ⟨rfl, rfl⟩ := List.cons.inj (hs.symm.trans (ht.trans hs'))
  exact Prod.mk.inj (hr.symm.trans hr')

/-- If a segment goes on from `e`, then what is read from `e` and any other text takes in `e`. -/
theorem exists_of_reads {e x z : Text} (h : g.Reads b v) (h' : g'.Reads b w)
    (ht : g.text = e ++ x) (ht' : g'.text ++ w = e ++ z) :
    ∃ u, g'.text = e ++ u ∧ z = u ++ w := by
  rcases List.append_eq_append_iff.1 ht' with ⟨y, hy, rfl⟩ | ⟨u, hu, rfl⟩
  · cases y with
    | nil => exact ⟨[], by simp [hy], rfl⟩
    | cons c y =>
      have hr : g'.Reads b (c :: y ++ x ++ v) := h'.of_alike (Or.inl rfl)
      obtain ⟨-, hv⟩ := reads_unique hr h (by simp [hy, ht])
      have hl := congrArg List.length hv
      simp at hl
      omega
  · exact ⟨u, hu, rfl⟩

/-- Whether the text behind the segments continues a compound. -/
def continuesAfter (b : Bool) (l : List Segment) : Bool :=
  l.foldl (fun b g => g.continues b) b

@[simp] theorem continuesAfter_nil : continuesAfter b [] = b := rfl

@[simp] theorem continuesAfter_cons :
    continuesAfter b (g :: l) = continuesAfter (g.continues b) l := rfl

/-- Whatever stands in front, the segments of the rest are those of its text. -/
theorem segmentsFrom_textOf (h : segmentsFrom b s = l ++ m) :
    segmentsFrom (continuesAfter b l) (textOf m) = m := by
  fun_induction segmentsFrom b s generalizing l with
  | case1 b =>
    obtain ⟨rfl, rfl⟩ := List.append_eq_nil_iff.1 h.symm
    exact segmentsFrom.eq_1 b
  | case2 b c s r =>
    rename_i ih
    cases l with
    | nil =>
      have hm : segmentsFrom b (c :: s) = m := by
        rw [segmentsFrom]
        exact h
      rw [← hm, textOf_segmentsFrom, continuesAfter_nil]
    | cons g l =>
      obtain ⟨rfl, hl⟩ := List.cons.inj h
      exact ih hl

theorem reads_of_segmentsFrom (h : segmentsFrom b s = l ++ g :: m) :
    g.Reads (continuesAfter b l) (textOf m) := by
  have hs := segmentsFrom_textOf h
  generalize continuesAfter b l = b' at hs ⊢
  have ht : textOf (g :: m) ≠ [] := by
    intro hn
    rw [hn, segmentsFrom] at hs
    cases hs
  obtain ⟨c, x, hx⟩ := List.exists_cons_of_ne_nil ht
  rw [hx, segmentsFrom] at hs
  obtain ⟨rfl, rfl⟩ := List.cons.inj hs
  rw [textOf_segmentsFrom]
  exact reads_segment b' c x

/-- Text is cut the same way with `v` behind it, if its last segment is read in front of `v`. -/
theorem segmentsFrom_append_of_reads (b : Bool) (s : Text)
    (h : ∀ l g, segmentsFrom b s = l ++ [g] → g.Reads (continuesAfter b l) v) :
    segmentsFrom b (s ++ v) =
      segmentsFrom b s ++ segmentsFrom (continuesAfter b (segmentsFrom b s)) v := by
  -- Only the last segment has `v` right behind it; for all others the text behind starts as before.
  fun_induction segmentsFrom b s with
  | case1 => rfl
  | case2 b c s r =>
    rename_i ih
    have hs : r.1.text ++ r.2 = c :: s := segment_append b c s
    have hr : r.1.Reads b r.2 := reads_segment b c s
    have hv : r.1.Reads b (r.2 ++ v) := by
      cases hr2 : r.2 with
      | nil => exact h [] r.1 (by simp [hr2, segmentsFrom])
      | cons d u =>
        rw [hr2, ← List.append_nil (d :: u)] at hr
        exact hr.of_alike (startsAlike_append (by simp) [] v)
    have hi := ih fun l g hl => h (r.1 :: l) g (by rw [hl, List.cons_append])
    rw [← hs, List.append_assoc, segmentsFrom_of_reads hv, hi]
    rfl

/-- A simple selector that ends where `v` starts. -/
def Segment.Closes (g : Segment) (v : Text) : Prop :=
  match g with
  | blanks _ => False
  | token t => t.isSimple ∧ t.Stops v

instance : (g : Segment) → (v : Text) → Decidable (g.Closes v)
  | .blanks _, _ => instDecidableFalse
  | .token t, v => inferInstanceAs (Decidable (t.isSimple ∧ t.Stops v))

theorem Segment.Closes.of_alike (h : g.Closes v) (hw : StartsAlike v w) : g.Closes w := by
  cases g with
  | blanks => exact h.elim
  | token t => exact ⟨h.1, h.2.of_alike hw⟩

theorem Segment.Closes.reads (h : g.Closes v) (hf : g.Formed) (b : Bool) :
    g.Reads b v ∧ g.continues b = true := by
  cases g with
  | blanks => exact h.elim
  | token t =>
    refine ⟨reads_token hf h.2 ?_, h.1⟩
    rintro k w rfl
    cases h.1

/-- Text that ends with a simple selector is cut the same way with `v` behind it, if the last token
stops there. -/
theorem segmentsFrom_append (b : Bool) (s : Text)
    (h : ∀ g ∈ (segmentsFrom b s).getLast?, g.Closes v) :
    segmentsFrom b (s ++ v) =
      segmentsFrom b s ++ segmentsFrom (continuesAfter b (segmentsFrom b s)) v := by
  refine segmentsFrom_append_of_reads b s fun l g hl => ?_
  have hg : g.Closes v := h g (by simp [hl])
  exact (hg.reads (reads_of_segmentsFrom hl).formed.1 _).1

theorem continuesAfter_of_closes (h : ∀ g ∈ l.getLast?, g.Closes v) :
    continuesAfter true l = true := by
  cases hl : l.getLast? with
  | none => rw [List.getLast?_eq_none_iff.1 hl, continuesAfter_nil]
  | some g =>
    obtain ⟨l, rfl⟩ := List.getLast?_eq_some_iff.1 hl
    have hg := h g (by simp)
    rw [continuesAfter, List.foldl_append]
    cases g with
    | blanks => exact hg.elim
    | token t => exact hg.1

end ComponentSheet.Selector
