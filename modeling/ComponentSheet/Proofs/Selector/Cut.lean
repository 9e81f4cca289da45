import ComponentSheet.Proofs.Selector.Rereading
import ComponentSheet.Proofs.Text.Trimmed
import ComponentSheet.Selector.Entries

/-! The first comma of a text, and how it stays when the text changes around it. -/
namespace ComponentSheet.Selector

open Reading

variable {b : Bool} {s u v x y : Text} {c : Char} {g : Segment} {l : List Segment} {p : Text × Text}

/-- What stands in front of the first comma and behind it. -/
def cut? (s : Text) : Option (Text × Text) :=
  cutAtComma? (segments s)

theorem eq_of_cut? (h : cut? s = some (x, y)) : s = x ++ ',' :: y :=
  (textOf_segments s).symm.trans (textOf_of_cutAtComma? h)

/-- The place of a comma with more text in front. -/
def behindText (u : Text) (p : Option (Text × Text)) : Option (Text × Text) :=
  p.map fun p => (u ++ p.1, p.2)

theorem behindText_nil (p : Option (Text × Text)) : behindText [] p = p := by
  cases p <;> rfl

theorem behindText_behindText (u v : Text) (p : Option (Text × Text)) :
    behindText u (behindText v p) = behindText (u ++ v) p := by
  cases p <;> simp [behindText]

theorem cutAtComma?_cons (h : g ≠ .token .comma) :
    cutAtComma? (g :: l) = behindText g.text (cutAtComma? l) := by
  rw [cutAtComma?]
  · rfl
  · exact h

theorem segmentsFrom_not_blank (hc : isBlank c = false) (b : Bool) (s : Text) :
    segmentsFrom b (c :: s) = segments (c :: s) := by
  rw [segments, segmentsFrom, segmentsFrom, segment_not_blank b hc, segment_not_blank false hc]
  rfl

theorem cutAtComma?_dropWhile (b : Bool) (s : Text) :
    cutAtComma? (segmentsFrom b s) =
      behindText (s.takeWhile isBlank) (cut? (s.dropWhile isBlank)) := by
  cases s with
  | nil => rw [segmentsFrom, cut?, List.dropWhile_nil, segments, segmentsFrom]; rfl
  | cons c s =>
    by_cases hc : isBlank c
    · have hrest (b : Bool) : segmentsFrom b (s.dropWhile isBlank) =
          segments (s.dropWhile isBlank) := by
        rcases head_dropWhile_isBlank s with h | ⟨d, t, h, hd⟩
        · rw [h, segments, segmentsFrom, segmentsFrom]
        · rw [h, segmentsFrom_not_blank hd]
      rw [segmentsFrom, segment_blank b hc, List.takeWhile_cons_of_pos hc,
        List.dropWhile_cons_of_pos hc, cut?]
      dsimp only
      rw [hrest]
      split <;> rfl
    · rw [List.takeWhile_cons_of_neg hc, List.dropWhile_cons_of_neg hc, behindText_nil, cut?,
        segmentsFrom_not_blank (by simpa using hc)]

/-- Whether a compound goes on in front of the text does not matter. -/
theorem cutAtComma?_segmentsFrom (b : Bool) (s : Text) :
    cutAtComma? (segmentsFrom b s) = cut? s := by
  rw [cut?, segments, cutAtComma?_dropWhile b, cutAtComma?_dropWhile false]

theorem cut?_blanks (hu : u.all isBlank) (s : Text) : cut? (u ++ s) = behindText u (cut? s) := by
  have hb : ∀ c ∈ u, isBlank c := List.all_eq_true.1 hu
  rw [← cutAtComma?_segmentsFrom false, ← cutAtComma?_segmentsFrom false s, cutAtComma?_dropWhile,
    cutAtComma?_dropWhile, List.takeWhile_append_of_pos hb, List.dropWhile_append_of_pos hb,
    behindText_behindText]

theorem cut?_token (hc : isBlank c = false) (s : Text) :
    cut? (c :: s) = if (token c s).1 = .comma then some ([], (token c s).2)
      else behindText (token c s).1.lexeme (cut? (token c s).2) := by
  rw [cut?, segments, segmentsFrom, segment_not_blank false hc]
  split
  · rename_i ht
    rw [ht, cutAtComma?, textOf_segmentsFrom]
  · rename_i ht
    rw [cutAtComma?_cons fun h => ht (Segment.token.inj h), cutAtComma?_segmentsFrom]
    rfl

/-- A comma parts the text, and any other segment stays in front of the first comma. -/
theorem cut?_segment (hf : g.Formed) (hv : g.Stops v) :
    cut? (g.text ++ v) =
      if g = .token .comma then some ([], v) else behindText g.text (cut? v) := by
  cases g with
  | blanks w => exact (cut?_blanks hf v).trans (if_neg (by simp)).symm
  | token t =>
    by_cases hk : ∃ k w, t = .combinator k w
    · obtain ⟨k, w, rfl⟩ := hk
      rw [if_neg (by simp), Segment.text, Token.lexeme]
      by_cases hd : k = .descendant
      · subst k
        exact cut?_blanks hf v
      · obtain ⟨c, hc, ht⟩ := token_sign k hd (w ++ v)
        have hb : isBlank c = false := by cases k <;> cases hc <;> decide
        have hcut : cut? ((w ++ v).takeWhile isBlank ++ (w ++ v).dropWhile isBlank) = _ :=
          cut?_blanks List.all_takeWhile _
        rw [List.takeWhile_append_dropWhile] at hcut
        rw [hc, List.append_assoc, List.singleton_append, cut?_token hb, ht, sign]
        dsimp only
        rw [if_neg (by simp), Token.lexeme, hc, ← behindText_behindText, ← behindText_behindText,
          ← hcut, cut?_blanks hf]
    · simp only [not_exists] at hk
      obtain ⟨c, x, hl, hb, ht⟩ := token_of_formed hf hv hk
      rw [Segment.text, hl, List.cons_append, cut?_token hb, ht, hl]
      simp

theorem cut?_append_of_segments (b : Bool) (u : Text)
    (h : ∀ g ∈ (segmentsFrom b u).getLast?, g.Stops v) (hu : cut? u = none) :
    cut? (u ++ v) = behindText u (cut? v) := by
  fun_induction segmentsFrom b u with
  | case1 => exact (behindText_nil _).symm
  | case2 b c s r =>
    rename_i ih
    obtain ⟨hf, hs⟩ := segment_formed b c s
    have ht : r.1.text ++ r.2 = c :: s := segment_append b c s
    rw [List.getLast?_cons] at h
    have hv : r.1.Stops (r.2 ++ v) := by
      cases hr : r.2 with
      | nil => exact h r.1 (by simp [hr, segmentsFrom])
      | cons x u => exact hs.of_head (by rw [hr]; rfl)
    rw [← ht, cut?_segment hf hs] at hu
    by_cases hg : r.1 = .token .comma
    · rw [if_pos hg] at hu
      cases hu
    · rw [if_neg hg, behindText, Option.map_eq_none_iff] at hu
      have hi : cut? (r.2 ++ v) = behindText r.2 (cut? v) := by
        refine ih (fun g hg => h g ?_) hu
        rw [Option.mem_def] at hg ⊢
        rw [hg, Option.getD_some]
      rw [← ht, List.append_assoc, cut?_segment hf hv, if_neg hg, hi, behindText_behindText]

/-- Without a comma in a text, the first one is behind it. -/
theorem cut?_append (h : ∀ g ∈ (segments u).getLast?, g.Stops v) (hu : cut? u = none) :
    cut? (u ++ v) = behindText u (cut? v) :=
  cut?_append_of_segments false u h hu

/-- Up to the comma, what is behind it does not matter. -/
theorem cut?_swap (h : cut? (x ++ ',' :: y) = some (x, y)) (z : Text) :
    cut? (x ++ ',' :: z) = some (x, z) := by
  generalize hs : x ++ ',' :: y = s at h
  fun_induction segmentsFrom false s generalizing x with
  | case1 => simp at hs
  | case2 b c s r =>
    rename_i ih
    obtain ⟨hf, hv⟩ := segment_formed b c s
    have ht : r.1.text ++ r.2 = c :: s := segment_append b c s
    rw [← ht, cut?_segment hf hv] at h
    by_cases hg : r.1 = .token .comma
    · rw [if_pos hg] at h
      obtain ⟨rfl, rfl⟩ := Prod.mk.inj (Option.some.inj h)
      have hcomma : cut? ((Segment.token .comma).text ++ z) = _ := cut?_segment trivial trivial
      rwa [if_pos rfl] at hcomma
    · rw [if_neg hg] at h
      obtain ⟨⟨x', y'⟩, hp, hx⟩ := Option.map_eq_some_iff.1 h
      obtain ⟨rfl, rfl⟩ := Prod.mk.inj hx
      have hcut : cut? (x' ++ ',' :: z) = some (x', z) := ih (eq_of_cut? hp).symm hp
      have hstops : r.1.Stops (x' ++ ',' :: z) := by
        refine hv.of_head ?_
        rw [eq_of_cut? hp]
        cases x' <;> rfl
      rw [List.append_assoc, cut?_segment hf hstops, if_neg hg, hcut]
      rfl

/-- Blanks around a text make no comma and take none away. -/
theorem cut?_surrounded (hu : u.all isBlank) (hv : v.all isBlank) (s : Text) :
    cut? (u ++ (s ++ v)) = (cut? s).map fun p => (u ++ p.1, p.2 ++ v) := by
  rw [cut?_blanks hu]
  cases hs : cut? s with
  | some p =>
    obtain ⟨x, y⟩ := p
    have he := eq_of_cut? hs
    rw [he] at hs
    rw [he, List.append_assoc, List.cons_append, cut?_swap hs (y ++ v)]
    rfl
  | none =>
    cases hsv : cut? (s ++ v) with
    | none => rfl
    | some p =>
      obtain ⟨x, z⟩ := p
      have he := eq_of_cut? hsv
      obtain ⟨y, rfl, -⟩ := Text.exists_of_append_blanks hv (by decide) he
      rw [he] at hsv
      cases hs.symm.trans (cut?_swap hsv y)

theorem exists_of_cutAtComma? (h : cutAtComma? l = some p) :
    ∃ l₁ l₂, l = l₁ ++ .token .comma :: l₂ ∧ p = (textOf l₁, textOf l₂) := by
  fun_induction cutAtComma? l generalizing p with
  | case1 => cases h
  | case2 l =>
    cases h
    exact ⟨[], l, rfl, rfl⟩
  | case3 g l _ ih =>
    obtain ⟨q, hq, rfl⟩ := Option.map_eq_some_iff.1 h
    obtain ⟨l₁, l₂, rfl, rfl⟩ := ih hq
    exact ⟨g :: l₁, l₂, rfl, rfl⟩

/-- Behind the comma the segments are those of the text there. -/
theorem segments_of_cut? (h : cut? s = some (x, y)) :
    ∃ l, segments s = l ++ .token .comma :: segments y := by
  obtain ⟨l, m, hl, hp⟩ := exists_of_cutAtComma? h
  obtain ⟨-, rfl⟩ := Prod.mk.inj hp
  rw [List.append_cons] at hl
  have hm := segmentsFrom_textOf hl
  rw [continuesAfter, List.foldl_append] at hm
  refine ⟨l, ?_⟩
  rw [hl, ← List.append_cons]
  congr 2
  exact hm.symm

end ComponentSheet.Selector
