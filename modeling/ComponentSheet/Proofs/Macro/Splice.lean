import ComponentSheet.Proofs.Macro.Shown

/-! A call replaced in its place, and what that does to the text around it. -/
namespace ComponentSheet.Macro

open Selector

variable {kinds : List Kind} {k : Kind} {p new s t v w : Text} {l m pre post : List Part} {q : Part}
  {g : Segment}

/-- The call as a token. -/
def callToken (k : Kind) (p : Text) : Token :=
  .function k.name p

/-- The second text is the first with `new` in the place of a call of `k`, at any depth in the
arguments of tokens that are no calls of `kinds`. Behind it `new` keeps its reading. -/
inductive Splice (kinds : List Kind) (k : Kind) (p new : Text) : Text → Text → Prop
  | here {v : Text} (hf : (callToken k p).Formed) (he : EndsBefore new v) :
      Splice kinds k p new ((callToken k p).lexeme ++ v) (new ++ v)
  | behind {g : Segment} {v w : Text} (hf : g.Formed) (hv : g.Stops v)
      (h : Splice kinds k p new v w) : Splice kinds k p new (g.text ++ v) (g.text ++ w)
  | inside {t : Token} {o a b v : Text} (hf : t.Formed) (ha : t.arguments? = some (o, a))
      (hn : callPart? kinds (.token t) = none) (h : Splice kinds k p new a b) :
      Splice kinds k p new (o ++ a ++ ')' :: v) (o ++ b ++ ')' :: v)

theorem startsName_name (k : Kind) : Reading.startsName k.name := by
  cases k <;> decide

theorem head_callToken (k : Kind) (p v : Text) :
    ((callToken k p).lexeme ++ v).head?.any isNameChar := by
  obtain ⟨c, n, hn, hc, -⟩ := Reading.exists_of_startsName (startsName_name k)
  simp [callToken, Token.applied, hn, hc]

theorem shownIn_callToken (k : Kind) (p : Text) :
    shownIn Kind.all (.token (callToken k p)) = [.call k p] := by
  have hcall : callPart? Kind.all (.token (callToken k p)) = some (.call k p) := by
    simp [callPart?, callToken, kindAmong?_name, mem_all]
  rw [shownIn, hcall]

theorem head_append (h : w.head? = v.head? ∨ v.head?.any isNameChar) (u : Text) :
    (u ++ w).head? = (u ++ v).head? ∨ (u ++ v).head?.any isNameChar := by
  cases u with
  | nil => exact h
  | cons => exact Or.inl rfl

/-- The front of a text changes only where it was the call. -/
theorem Splice.front (h : Splice kinds k p new v w) :
    w.head? = v.head? ∨ v.head?.any isNameChar := by
  induction h with
  | here => exact Or.inr (head_callToken _ _ _)
  | behind _ _ _ ih => exact head_append ih _
  | @inside t o a b v _ ha _ _ ih =>
    obtain ⟨c, o, rfl⟩ := List.exists_cons_of_ne_nil (Token.opening_ne_nil ha)
    exact Or.inl rfl

theorem stops_of_front (hv : g.Stops v) (h : w.head? = v.head? ∨ v.head?.any isNameChar) :
    g.Stops w := by
  rcases h with h | h
  · exact hv.of_head h
  · exact hv.of_name h w

theorem Splice.stops (h : Splice kinds k p new v w) (hv : g.Stops v) : g.Stops w :=
  stops_of_front hv h.front

theorem Splice.sameLevels (h : Splice kinds k p new v w)
    (hl : SameLevels (callToken k p).lexeme new) : SameLevels v w := by
  induction h with
  | here => exact hl.append (sameLevels_refl _)
  | behind _ _ _ ih => exact (sameLevels_refl _).append ih
  | inside _ _ _ _ ih => exact ((sameLevels_refl _).append ih).append (sameLevels_refl _)

/-- The arguments around the replacement are still closed. -/
theorem Splice.closed {t : Token} {o : Text} (h : Splice kinds k p new v w)
    (hl : SameLevels (callToken k p).lexeme new) (hf : t.Formed)
    (ha : t.arguments? = some (o, v)) : Closed w :=
  (h.sameLevels hl).closed (Token.closed_of_arguments? hf ha)

/-- What takes the place of a call opens and closes what the call does and does not run into the
text behind it. -/
structure Fits (k : Kind) (p new behind : Text) : Prop where
  sameLevels : SameLevels (Part.call k p).text new
  endsBefore : EndsBefore new behind

instance (k : Kind) (p new behind : Text) : Decidable (Fits k p new behind) :=
  decidable_of_iff (SameLevels (Part.call k p).text new ∧ EndsBefore new behind)
    ⟨fun h => ⟨h.1, h.2⟩, fun h => ⟨h.1, h.2⟩⟩

theorem Fits.of_front (h : Fits k p new v) (hw : w.head? = v.head? ∨ v.head?.any isNameChar) :
    Fits k p new w :=
  ⟨h.sameLevels, fun g hg => stops_of_front (h.endsBefore g hg) hw⟩

theorem append_letters_split (h : letters s ++ l = pre ++ q :: post) (hq : q.isCall) :
    ∃ pre', pre = letters s ++ pre' ∧ l = pre' ++ q :: post := by
  induction s generalizing pre with
  | nil => exact ⟨pre, rfl, h⟩
  | cons c s ih =>
    cases pre with
    | nil =>
      cases h
      cases hq
    | cons x pre =>
      obtain ⟨hx, ht⟩ := List.cons.inj h
      obtain ⟨pre', rfl, hl⟩ := ih ht
      exact ⟨pre', hx ▸ rfl, hl⟩

theorem letters_append_split (h : l ++ letters s = pre ++ q :: post) (hq : q.isCall) :
    ∃ post', post = post' ++ letters s ∧ l = pre ++ q :: post' := by
  have hn : q ∉ letters s := fun hm => by simp [isCall_of_mem_letters hm] at hq
  rcases List.append_eq_append_iff.1 h with ⟨x, -, hx⟩ | ⟨x, rfl, hx⟩
  · exact absurd (hx ▸ by simp) hn
  · cases x with
    | nil =>
      rw [List.nil_append] at hx
      exact absurd (hx ▸ List.mem_cons_self) hn
    | cons y x =>
      obtain ⟨rfl, rfl⟩ := List.cons.inj hx
      exact ⟨x, rfl, rfl⟩

theorem eq_of_callPart? (h : callPart? kinds g = some (.call k p)) :
    g = .token (callToken k p) := by
  revert h
  fun_cases callPart? kinds g <;> simp only [Option.map_eq_some_iff, reduceCtorEq, false_imp_iff]
  · rintro ⟨k, hk, ⟨⟩⟩
    rw [callToken, name_of_kindAmong? hk]
  · rintro ⟨k, hk, ⟨⟩⟩

theorem isCall_of_callPart? (h : callPart? kinds g = some q) : q.isCall := by
  revert h
  fun_cases callPart? kinds g <;> simp only [Option.map_eq_some_iff, reduceCtorEq, false_imp_iff]
  all_goals
    rintro ⟨k, -, rfl⟩
    rfl

theorem mem_kinds_of_callPart? (h : callPart? kinds g = some (.call k p)) : k ∈ kinds := by
  revert h
  fun_cases callPart? kinds g <;> simp only [Option.map_eq_some_iff, reduceCtorEq, false_imp_iff]
  · rintro ⟨j, hj, ⟨⟩⟩
    simpa using (Option.filter_eq_some_iff.1 hj).2
  · rintro ⟨j, hj, ⟨⟩⟩

/-- A segment is the call that it shows, or the call stands in its arguments. -/
theorem cases_of_shownIn (h : shownIn kinds g = pre ++ q :: post) (hq : q.isCall) :
    (pre = [] ∧ post = [] ∧ callPart? kinds g = some q) ∨ callPart? kinds g = none ∧
      ∃ o a pre' post', arguments? g = some (o, a) ∧ pre = letters o ++ pre' ∧
        post = post' ++ letters [')'] ∧ shown kinds a = pre' ++ q :: post' := by
  rw [shownIn] at h
  cases hp : callPart? kinds g with
  | some x =>
    rw [hp] at h
    cases pre with
    | nil =>
      cases h
      exact Or.inl ⟨rfl, rfl, rfl⟩
    | cons y pre => simp at h
  | none =>
    rw [hp] at h
    dsimp only at h
    cases ha : arguments? g with
    | none =>
      rw [ha] at h
      dsimp only at h
      have hm : q ∈ letters g.text := by simp [h]
      cases (isCall_of_mem_letters hm).symm.trans hq
    | some x =>
      obtain ⟨o, a⟩ := x
      rw [ha] at h
      dsimp only at h
      obtain ⟨post', rfl, h'⟩ := letters_append_split h hq
      obtain ⟨pre', rfl, hs⟩ := append_letters_split h' hq
      exact Or.inr ⟨rfl, o, a, pre', post', rfl, rfl, rfl, hs⟩

theorem mem_kinds_of_shown (h : .call k p ∈ shown kinds s) : k ∈ kinds := by
  induction s using text_induction with
  | nil => simp at h
  | segment g v hf hv ihArguments ih =>
    rw [shown_segment hf hv, List.mem_append] at h
    rcases h with h | h
    · obtain ⟨pre, post, hg⟩ := List.append_of_mem h
      rcases cases_of_shownIn hg rfl with ⟨-, -, hp⟩ | ⟨-, o, a, pre', post', ha, -, -, hs⟩
      · exact mem_kinds_of_callPart? hp
      · exact ihArguments o a ha (by simp [hs])
    · exact ih h

theorem EndsBefore.of_head (h : EndsBefore new v) (hw : w.head? = v.head? ∨ w = []) :
    EndsBefore new w := by
  intro g hg
  rcases hw with hw | rfl
  · exact (h g hg).of_head hw
  · exact (h g hg).nil

theorem shown_arguments {t : Token} {o a : Text} (hf : t.Formed) (ha : t.arguments? = some (o, a)) :
    shown kinds (o ++ a ++ ')' :: v) = shownIn kinds (.token t) ++ shown kinds v := by
  have hg : Segment.Formed (.token t) := hf
  have hs : Segment.Stops (.token t) v := Token.stops_of_arguments? ha v
  have ht : Segment.text (.token t) = o ++ a ++ [')'] := Token.lexeme_of_arguments? ha
  rw [← shown_segment hg hs, ht, List.append_assoc]
  simp

theorem shownIn_arguments {t : Token} {o a : Text} (ha : t.arguments? = some (o, a))
    (h : callPart? kinds (.token t) = none) :
    shownIn kinds (.token t) = letters o ++ shown kinds a ++ letters [')'] := by
  rw [shownIn, h]
  dsimp only
  rw [arguments?, ha]

theorem shown_carrying {t : Token} {o a b : Text} (hf : t.Formed) (ha : t.arguments? = some (o, a))
    (hb : Closed b) :
    shown kinds (o ++ b ++ ')' :: v) = shownIn kinds (.token (t.carrying b)) ++ shown kinds v :=
  shown_arguments (Token.carrying_formed hf ha hb) (Token.arguments?_carrying ha b)

theorem callPart?_carrying {t : Token} {b : Text} (h : callPart? kinds (.token t) = none) :
    callPart? kinds (.token (t.carrying b)) = none := by
  revert h
  fun_cases Token.carrying t b
  · exact id
  · exact id
  · simp [callPart?]
  · exact id

theorem callPart?_carrying_some {t : Token} {o a b : Text} (ha : t.arguments? = some (o, a))
    (h : callPart? kinds (.token t) = some q) :
    ∃ j, q = .call j a ∧ callPart? kinds (.token (t.carrying b)) = some (.call j b) := by
  revert ha
  fun_cases Token.arguments? t <;> rintro ⟨⟩
  · cases h
  · cases h
  · rename_i n
    obtain ⟨j, hj, rfl⟩ := Option.map_eq_some_iff.1 h
    exact ⟨j, rfl, by simp [Token.carrying, callPart?, hj]⟩

theorem shownIn_carrying {t : Token} {o a b : Text} (ha : t.arguments? = some (o, a))
    (h : callPart? kinds (.token t) = none) :
    shownIn kinds (.token (t.carrying b)) = letters o ++ shown kinds b ++ letters [')'] :=
  shownIn_arguments (Token.arguments?_carrying ha b) (callPart?_carrying h)

theorem head_before (u v : Text) : u.head? = (u ++ v).head? ∨ u = [] := by
  cases u with
  | nil => exact Or.inr rfl
  | cons => exact Or.inl rfl

/-- What holds of the arguments of a segment holds of the segment. -/
theorem splice_of_shownIn (hf : g.Formed) (hl : SameLevels (callToken k p).lexeme new)
    (ih : ∀ o a, arguments? g = some (o, a) → ∀ pre post, shown kinds a = pre ++ .call k p :: post →
      EndsBefore new (textOf post) →
        Splice kinds k p new a (textOf pre ++ new ++ textOf post) ∧
          shown kinds (textOf pre ++ new ++ textOf post) = pre ++ shown kinds new ++ post)
    (h : shownIn kinds g = pre ++ .call k p :: post) (he : EndsBefore new (textOf post ++ v)) :
    Splice kinds k p new (g.text ++ v) (textOf pre ++ new ++ (textOf post ++ v)) ∧
      shown kinds (textOf pre ++ new ++ (textOf post ++ v)) =
        pre ++ shown kinds new ++ (post ++ shown kinds v) := by
  rcases cases_of_shownIn h rfl with ⟨rfl, rfl, hp⟩ | ⟨hp, o, a, pre, post, ha, rfl, rfl, ha'⟩
  · obtain rfl := eq_of_callPart? hp
    exact ⟨.here hf he, shown_append he⟩
  · rw [textOf_append, textOf_letters, List.append_assoc] at he
    obtain ⟨hs, hi⟩ := ih o a ha pre post ha' (he.of_head (head_before _ _))
    cases g with
    | blanks => cases ha
    | token t =>
      have hb := hs.closed hl hf ha
      have ht : Segment.text (.token t) = o ++ a ++ [')'] := Token.lexeme_of_arguments? ha
      have hx : textOf (letters o ++ pre) ++ new ++ (textOf (post ++ letters [')']) ++ v) =
          o ++ (textOf pre ++ new ++ textOf post) ++ ')' :: v := by simp
      rw [ht, hx, shown_carrying hf ha hb, shownIn_carrying ha hp, hi]
      refine ⟨?_, by simp⟩
      have hin := Splice.inside (v := v) hf ha hp hs
      simpa using hin

/-- In the place of a call that is shown, all that the replacement shows is shown, and nothing else
changes. -/
theorem splice_of_shown (h : shown kinds s = pre ++ .call k p :: post)
    (hfit : Fits k p new (textOf post)) :
    Splice kinds k p new s (textOf pre ++ new ++ textOf post) ∧
      shown kinds (textOf pre ++ new ++ textOf post) = pre ++ shown kinds new ++ post := by
  induction s using text_induction generalizing pre post with
  | nil => simp at h
  | segment g v hf hv ihArguments ih =>
    rw [shown_segment hf hv] at h
    have behind (pre' : List Part) (hp : pre = shownIn kinds g ++ pre')
        (h' : shown kinds v = pre' ++ .call k p :: post) :
        Splice kinds k p new (g.text ++ v) (textOf pre ++ new ++ textOf post) ∧
          shown kinds (textOf pre ++ new ++ textOf post) = pre ++ shown kinds new ++ post := by
      obtain ⟨hs, hi⟩ := ih h' hfit
      subst hp
      have hw := hs.stops hv
      have hx : textOf (shownIn kinds g ++ pre') = g.text ++ textOf pre' := by
        rw [textOf_append, textOf_shownIn]
      rw [hx, List.append_assoc, List.append_assoc, ← List.append_assoc (textOf pre'),
        shown_segment hf hw, hi]
      exact ⟨.behind hf hv hs, by simp⟩
    -- The call is behind the first segment, or the segment shows it.
    rcases List.append_eq_append_iff.1 h with ⟨x, hp, hx⟩ | ⟨x, hp, hx⟩
    · exact behind _ hp hx
    · cases x with
      | nil => exact behind [] (by simpa using hp.symm) hx.symm
      | cons y x =>
        rw [List.cons_append] at hx
        obtain ⟨rfl, rfl⟩ := List.cons.inj hx
        have he := hfit.endsBefore
        rw [textOf_append, textOf_shown] at he
        have hi := splice_of_shownIn (v := v) hf hfit.sameLevels
          (fun o a ha pre post h he => ihArguments o a ha h ⟨hfit.sameLevels, he⟩) hp he
        simpa [textOf_shown] using hi

theorem splice_of_findCall {c : Call} (hc : findCall kinds s = .ok (some c))
    (hf : Fits c.kind c.params new c.after) :
    Splice kinds c.kind c.params new s (c.replacedBy new) := by
  rw [findCall_eq] at hc
  obtain ⟨pre, post, hl, -, hb, ha, -⟩ := exists_of_firstCall hc
  rw [Call.replacedBy, hb, ha]
  rw [ha] at hf
  exact (splice_of_shown hl hf).1

theorem trim_ne_nil_of_findCall {c : Call} (hc : findCall kinds s = .ok (some c)) :
    c.params.trim ≠ [] := by
  obtain ⟨_, _, _, _, _, _, hp⟩ := exists_of_firstCall hc
  exact hp

end ComponentSheet.Macro
