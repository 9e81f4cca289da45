import ComponentSheet.Proofs.Sheet.Prelude

/-! The events of a text, by its first character and by the text that is read as a whole. -/
namespace ComponentSheet

open Event

variable {c : Char} {s t u name body : Text} {d : Nat} {pos pos' : Position}

@[simp] theorem eventsOf_nil : eventsOf [] = [] := by
  rw [eventsOf]

theorem eventsOf_blank (h : isBlank c) (s : Stamped) : eventsOf ((c, pos) :: s) = eventsOf s := by
  rw [eventsOf, if_pos h]
  rintro _ _ - rfl
  exact absurd h (by decide)

theorem eventsOf_blanks (hu : u.all isBlank) :
    eventsOf (stamp pos (u ++ s)) = eventsOf (stamp (pos.after u) s) := by
  induction u generalizing pos with
  | nil => rfl
  | cons c u ih =>
    rw [List.all_cons, Bool.and_eq_true] at hu
    rw [List.cons_append, stamp_cons, eventsOf_blank hu.1, ih hu.2, Position.after_cons]

theorem eventsOf_close (s : Stamped) :
    eventsOf (('}', pos) :: s) = .closes pos :: eventsOf s := by
  rw [eventsOf, if_neg (by decide), dif_pos rfl]
  simp

theorem eventsOf_comment (pos pos' : Position) (s : Stamped) :
    eventsOf (('/', pos) :: ('*', pos') :: s) =
      match comment s with
      | some (text, rest) => .node (.comment text.trim pos) :: eventsOf rest
      | none => [.fault (.unterminatedComment pos)] := by
  rw [eventsOf]
  split <;> simp_all

theorem eventsOf_atRule (pos : Position) (s : Stamped) :
    eventsOf (('@', pos) :: s) =
      match prelude 0 (s.dropWhile (isWordChar ·.1)) with
      | .ok r =>
        ofAtRule ((s.takeWhile (isWordChar ·.1)).map (·.1)) r.text.trim r.ending pos ::
          eventsOf r.rest
      | .error e => [.fault e] := by
  rw [eventsOf, if_neg (by decide), dif_neg (by decide), if_pos rfl]
  · split <;> simp_all
  · simp

/-- A text that is no comment, no at-rule and no closing brace. -/
theorem eventsOf_prelude {s : Stamped} (hb : isBlank c = false) (hc : c ≠ '}') (ha : c ≠ '@')
    (hs : c = '/' → (s.map (·.1)).head? ≠ some '*') :
    eventsOf ((c, pos) :: s) =
      match prelude 0 ((c, pos) :: s) with
      | .ok r => (ofPrelude? r.text.trim r.ending pos).toList ++ eventsOf r.rest
      | .error e => [.fault e] := by
  rw [eventsOf, if_neg (by simp [hb]), dif_neg hc, if_neg ha]
  · split <;> simp_all
  · rintro _ _ rfl rfl
    exact hs rfl rfl

theorem ofPrelude?_rule (h : s ≠ []) (pos : Position) :
    ofPrelude? s .brace pos = some (.opens (.rule s) pos) := by
  obtain ⟨c, s, rfl⟩ := List.exists_cons_of_ne_nil h
  rfl

theorem ofPrelude?_declaration {x : Declaration} (h : Declaration.ofText? s = some x)
    (pos : Position) : ofPrelude? s .semicolon pos = some (.node (.declaration x pos)) := by
  cases s with
  | nil => cases h
  | cons c s => simp only [ofPrelude?, h]

/-- The character that ends a prelude. -/
def Event.Ending.mark? : Ending → Option Char
  | semicolon => some ';'
  | brace => some '{'
  | bare => none

theorem prelude_mark {ending : Ending} (h : ending.mark? = some c) (pos : Position) (s : Stamped) :
    prelude 0 ((c, pos) :: s) = .ok ⟨[], ending, s⟩ := by
  cases ending with
  | semicolon => cases h; exact prelude_semicolon pos s
  | brace => cases h; exact prelude_brace pos s
  | bare => cases h

theorem ne_of_mark {ending : Ending} (h : ending.mark? = some c) :
    c ≠ '*' ∧ isWordChar c = false := by
  cases ending with
  | semicolon => cases h; decide +kernel
  | brace => cases h; decide +kernel
  | bare => cases h

theorem exists_prelude_stamp {ending : Ending} (hm : ending.mark? = some c)
    (h : Passes (.outside 0) s (.outside 0)) (pos : Position) (t : Text) :
    ∃ pos', prelude 0 (stamp pos (s ++ c :: t)) = .ok ⟨s, ending, stamp pos' t⟩ := by
  have hc : (c :: t).head? ≠ some '*' := by simpa using (ne_of_mark hm).1
  rw [prelude_stamp h hc, stamp_cons, prelude_mark hm]
  exact ⟨_, by simp [Except.map]; rfl⟩

/-- A prelude that makes an event outside at-rules, with blanks in front of it. -/
theorem exists_eventsOf_prelude {ending : Ending} (hm : ending.mark? = some c)
    (h : Passes (.outside 0) s (.outside 0)) (hn : s.trim ≠ []) (ha : s.trim.head? ≠ some '@')
    (pos : Position) (t : Text) :
    ∃ pos₁ pos₂, eventsOf (stamp pos (s ++ c :: t)) =
      (ofPrelude? s.trim ending pos₁).toList ++ eventsOf (stamp pos₂ t) := by
  obtain ⟨u, e, r, hs, hu, he, hhead, hstart⟩ := Text.exists_eq_head_trim hn
  have hp := hstart ▸ h.trimStart_outside
  have ht : Text.trim (e :: r) = s.trim := by rw [hs, Text.trim_append_left hu]
  have hclose : e ≠ '}' := by
    rintro rfl
    have hend := hp.after
    rw [Place.after_cons, show (Place.outside 0).next '}' = .ended from rfl,
      Place.ended_after] at hend
    cases hend
  have hat : e ≠ '@' := by
    rintro rfl
    exact ha hhead
  have hslash : e = '/' → ((stamp ((pos.after u).next e) (r ++ c :: t)).map (·.1)).head? ≠
      some '*' := by
    rintro rfl
    rw [map_fst_stamp]
    cases r with
    | nil => simpa using (ne_of_mark hm).1
    | cons x r =>
      have hquiet := hp.quiet
      simp only [Place.opensComment, Bool.or_eq_false_iff] at hquiet
      simpa [Place.isOutside] using hquiet.1
  obtain ⟨pos', hread⟩ := exists_prelude_stamp hm hp (pos.after u) t
  refine ⟨pos.after u, pos', ?_⟩
  rw [hs, List.append_assoc, eventsOf_blanks hu, List.cons_append, stamp_cons,
    eventsOf_prelude he hclose hat hslash, ← stamp_cons, ← List.cons_append, hread]
  simp only [ht, ← hs]

/-- An at-rule, for text behind its name that is no part of it. -/
theorem exists_eventsOf_atRule {ending : Ending} (hm : ending.mark? = some c)
    (hw : ∀ x ∈ name, isWordChar x) (h : Passes (.outside 0) s (.outside 0))
    (hs : ∀ x ∈ s.head?, isWordChar x = false) (pos : Position) (t : Text) :
    ∃ pos', eventsOf (stamp pos ('@' :: name ++ s ++ c :: t)) =
      ofAtRule name s.trim ending pos :: eventsOf (stamp pos' t) := by
  generalize hr : stamp ((pos.next '@').after name) (s ++ c :: t) = rest
  have hrest : ∀ x ∈ rest.head?, isWordChar x.1 = false := by
    intro x hx
    rw [← hr] at hx
    cases s with
    | nil =>
      obtain rfl : (c, _) = x := by simpa using hx
      exact (ne_of_mark hm).2
    | cons e s =>
      obtain rfl : (e, _) = x := by simpa using hx
      exact hs e rfl
  have hname : ∀ x ∈ stamp (pos.next '@') name, isWordChar x.1 := by
    intro x hx
    refine hw x.1 ?_
    rw [← map_fst_stamp (pos.next '@') name]
    exact List.mem_map_of_mem hx
  have htake : rest.takeWhile (isWordChar ·.1) = [] := by
    cases rest with
    | nil => rfl
    | cons x rest => exact List.takeWhile_cons_of_neg (by simp [hrest x rfl])
  have hdrop : rest.dropWhile (isWordChar ·.1) = rest := by
    cases rest with
    | nil => rfl
    | cons x rest => exact List.dropWhile_cons_of_neg (by simp [hrest x rfl])
  obtain ⟨pos', hread⟩ := exists_prelude_stamp hm h ((pos.next '@').after name) t
  refine ⟨pos', ?_⟩
  rw [List.append_assoc, List.cons_append, stamp_cons, eventsOf_atRule, stamp_append, hr,
    List.dropWhile_append_of_pos hname, hdrop, List.takeWhile_append_of_pos hname, htake,
    List.append_nil, map_fst_stamp, ← hr, hread]

/-- A comment is read up to the first end. -/
theorem comment_stamp (h : ¬ ['*', '/'] <:+: body) (pos : Position) (t : Text) :
    comment (stamp pos (body ++ '*' :: '/' :: t)) =
      some (body, stamp (((pos.after body).next '*').next '/') t) := by
  induction body generalizing pos with
  | nil => rfl
  | cons c body ih =>
    have htail : ¬ ['*', '/'] <:+: body := fun hi => h (hi.trans (List.suffix_cons c body).isInfix)
    rw [List.cons_append, stamp_cons, comment, ih htail]
    · rfl
    · rintro _ _ hs rfl
      cases body with
      | nil => simp at hs
      | cons d body =>
        obtain rfl : d = '/' := by simpa using congrArg (fun l => (l.map (·.1)).head?) hs
        exact h ⟨[], body, rfl⟩

theorem exists_eventsOf_comment (h : ¬ ['*', '/'] <:+: body) (pos : Position) (t : Text) :
    ∃ pos', eventsOf (stamp pos ('/' :: '*' :: body ++ '*' :: '/' :: t)) =
      .node (.comment body.trim pos) :: eventsOf (stamp pos' t) := by
  have hread := comment_stamp h ((pos.next '/').next '*') t
  rw [List.cons_append, List.cons_append, stamp_cons, stamp_cons, eventsOf_comment, hread]
  exact ⟨_, rfl⟩

end ComponentSheet
