import ComponentSheet.Proofs.Selector.Lossless

/-! Where compounds begin: simple selectors that belong together touch, and something stands between
all others. -/
namespace ComponentSheet.Selector

open Reading

variable {b : Bool} {i : Nat} {c : Char} {s v w : Text} {p q : Placed} {ps qs rs : List Placed}

theorem startsCompound_eq_false_iff :
    startsCompound (c :: s) = false ↔ c ∈ [',', '>', '+', '~'] := by
  simp [startsCompound, Decidable.imp_iff_not_or, or_assoc]

theorem isSimple_pseudo {mk : Text → Option Text → Token} (hm : ∀ n a, (mk n a).isSimple)
    (colons s : Text) : (pseudo colons mk s).1.isSimple := by
  rcases pseudo_cases colons mk s with ⟨n, a, rest, hp, -⟩ | hp | ⟨n, v, hp, -⟩
  · rw [hp]
    exact hm n (some a)
  · rw [hp]
    rfl
  · rw [hp]
    exact hm n none

theorem isSimple_named (s : Text) : (named s).1.isSimple := by
  rcases named_cases s with ⟨a, rest, hp, -⟩ | ⟨rest, hp, -⟩ | ⟨v, hp, -⟩
  all_goals
    rw [hp]
    rfl

/-- A token is a simple selector or not by its first character. -/
theorem isSimple_token (c : Char) (s : Text) :
    (token c s).1.isSimple = startsCompound (c :: s) := by
  fun_cases token c s
  case case1 | case2 | case3 | case4 | case5 | case6 =>
    subst c
    rfl
  case case11 =>
    subst c
    exact isSimple_pseudo (fun _ _ => rfl) _ _
  case case12 =>
    subst c
    exact isSimple_pseudo (fun _ _ => rfl) _ _
  case case13 => simpa [startsCompound, *] using isSimple_named _
  all_goals simp [Token.isSimple, startsCompound, *]

theorem placedFrom_token (i : Nat) (b : Bool) (hc : isBlank c = false) (s : Text) :
    placedFrom i b (segmentsFrom b (c :: s)) =
      ⟨(token c s).1, i, !b⟩ :: placedFrom (i + (token c s).1.lexeme.byteLength)
        (token c s).1.isSimple (segmentsFrom (token c s).1.isSimple (token c s).2) := by
  rw [segmentsFrom, segment_not_blank b hc]
  rfl

/-- What follows a simple selector touches it, if it is one itself. -/
theorem start_of_isSimple (h : placedFrom i true (segmentsFrom true v) = q :: qs)
    (hq : q.token.isSimple) : q.start = i := by
  cases v with
  | nil =>
    rw [segmentsFrom] at h
    cases h
  | cons c s =>
    by_cases hc : isBlank c
    · -- Blanks that are no combinator stand in front of a comma, of a sign or at the end.
      rw [segmentsFrom, segment_blank true hc, Bool.true_and] at h
      dsimp only at h
      split at h
      · obtain ⟨rfl, -⟩ := List.cons.inj h
        cases hq
      · rename_i hr
        rw [placedFrom, Segment.continues] at h
        rcases head_dropWhile_isBlank s with hd | ⟨d, t, hd, hb⟩
        · rw [hd, segmentsFrom] at h
          cases h
        · rw [hd, placedFrom_token _ _ hb] at h
          obtain ⟨rfl, -⟩ := List.cons.inj h
          rw [hd, ← isSimple_token] at hr
          exact absurd hq hr
    · rw [placedFrom_token _ _ (by simpa using hc)] at h
      obtain ⟨rfl, -⟩ := List.cons.inj h
      rfl

theorem exists_isSimple (hv : startsCompound v) (hb : ∀ c ∈ v.head?, isBlank c = false) (i : Nat)
    (b : Bool) : ∃ q ∈ (placedFrom i b (segmentsFrom b v)).head?, q.token.isSimple := by
  cases v with
  | nil => cases hv
  | cons c s =>
    rw [placedFrom_token i b (hb c rfl)]
    exact ⟨_, rfl, (isSimple_token c s).trans hv⟩

theorem opensBehind_concat (ps : List Placed) (p : Placed) :
    opensBehind (ps ++ [p]) = !p.token.isSimple := by
  simp [opensBehind]

theorem stop_eq_start (h : placed s = ps ++ p :: q :: qs) (hp : p.token.isSimple)
    (hq : q.token.isSimple) : p.stop = q.start := by
  obtain ⟨l, v, -, -, -, -, -, hqs⟩ := exists_of_placed h
  rw [hp] at hqs
  exact (start_of_isSimple hqs.symm hq).symm

theorem isSimple_around_descendant (h : placed s = ps ++ p :: qs)
    (hp : p.token = .combinator .descendant w) :
    (∃ q ∈ ps.getLast?, q.token.isSimple) ∧ ∃ q ∈ qs.head?, q.token.isSimple := by
  obtain ⟨l, v, -, hps, -, -, hr, hqs⟩ := exists_of_placed h
  rw [hp] at hr hqs
  obtain ⟨-, hb, hd⟩ := reads_combinator hr
  obtain ⟨-, hcontinues, hv⟩ := hd rfl
  constructor
  · rw [continuesAfter_eq 0, ← hps] at hcontinues
    cases hl : ps.getLast? with
    | none =>
      rw [hl] at hcontinues
      cases hcontinues
    | some q =>
      rw [hl] at hcontinues
      exact ⟨q, rfl, hcontinues⟩
  · rw [hqs]
    exact exists_isSimple hv hb _ _

/-- A token that is no simple selector starts with what parts compounds. -/
theorem exists_parting (h : p ∈ placed s) (hp : p.token.isSimple = false) :
    ∃ (u : Text) (c : Char) (v : Text), s = u ++ c :: v ∧ u.byteLength = p.start ∧
      (isBlank c ∨ c ∈ [',', '>', '+', '~']) := by
  obtain ⟨u, v, b, hs, hu, c, x, hc, hr⟩ := exists_of_mem_placed h
  refine ⟨u, c, x, by rw [hs]; exact congrArg (u ++ ·) hc, hu, ?_⟩
  by_cases hb : isBlank c
  · exact Or.inl hb
  · rw [segment_not_blank b (by simpa using hb)] at hr
    obtain ⟨ht, -⟩ := Prod.mk.inj hr
    rw [← Segment.token.inj ht, isSimple_token] at hp
    exact Or.inr (startsCompound_eq_false_iff.1 hp)

theorem stop_le_start (h : placed s = ps ++ p :: qs) (hq : q ∈ ps) : q.stop ≤ p.start := by
  have hs : (placed s).Pairwise fun p q => p.stop ≤ q.start := pairwise_placedFrom 0 false _
  rw [h] at hs
  exact (List.pairwise_append.1 hs).2.2 q hq p List.mem_cons_self

/-- A simple selector begins a compound if it is the first token or something stands in front of it,
behind the simple selectors there. -/
theorem opensCompound_iff (h : placed s = ps ++ p :: qs) (hp : p.token.isSimple) :
    p.opensCompound ↔ ps = [] ∨ ∃ (u : Text) (c : Char) (v : Text), s = u ++ c :: v ∧
      (∀ q ∈ ps, q.token.isSimple → q.stop ≤ u.byteLength) ∧ u.byteLength < p.start ∧
      (isBlank c ∨ c ∈ [',', '>', '+', '~']) := by
  rw [opensCompound_eq h]
  rcases List.eq_nil_or_concat ps with rfl | ⟨ps, q, rfl⟩
  · exact iff_of_true rfl (Or.inl rfl)
  · have hq : placed s = ps ++ q :: p :: qs := by rw [h]; simp
    rw [List.concat_eq_append, opensBehind_concat, Bool.not_eq_true']
    constructor
    · intro hparts
      have hmem : q ∈ placed s := by rw [hq]; simp
      obtain ⟨u, c, v, hs, hu, hc⟩ := exists_parting hmem hparts
      have hlt : q.start < q.stop := start_lt_stop hmem
      have hle : q.stop ≤ p.start := stop_le_start h (by simp)
      refine Or.inr ⟨u, c, v, hs, fun r hr hsimple => ?_, by omega, hc⟩
      rcases List.mem_append.1 hr with hr | hr
      · rw [hu]
        exact stop_le_start hq hr
      · rw [List.mem_singleton.1 hr, hparts] at hsimple
        cases hsimple
    · rintro (hn | ⟨u, c, v, -, hfront, hlt, -⟩)
      · simp at hn
      · refine Bool.eq_false_iff.2 fun hsimple => ?_
        have hstop : q.stop = p.start := stop_eq_start hq hsimple hp
        have hle := hfront q (by simp) hsimple
        omega

/-- Simple selectors each of which touches the next one. -/
def IsRun (rs : List Placed) : Prop :=
  (∀ p ∈ rs, p.token.isSimple) ∧ ∀ ps p q qs, rs = ps ++ p :: q :: qs → p.stop = q.start

/-- A run that goes on neither in front nor behind. -/
structure MaximalRun (ps rs qs : List Placed) : Prop where
  ne_nil : rs ≠ []
  run : IsRun rs
  front : ∀ p ∈ ps.getLast?, ¬ IsRun (p :: rs)
  behind : ∀ p ∈ qs.head?, ¬ IsRun (rs ++ [p])

theorem isRun_of_placed (h : placed s = ps ++ rs ++ qs) (hr : ∀ p ∈ rs, p.token.isSimple) :
    IsRun rs := by
  refine ⟨hr, fun l p q m hl => ?_⟩
  have hp : placed s = (ps ++ l) ++ p :: q :: (m ++ qs) := by simp [h, hl]
  exact stop_eq_start hp (hr p (by simp [hl])) (hr q (by simp [hl]))

theorem opensCompound_of_run (h : placed s = ps ++ rs ++ qs) (hr : MaximalRun ps rs qs) :
    ∃ p rest, rs = p :: rest ∧ p.opensCompound ∧ ∀ q ∈ rest, q.opensCompound = false := by
  obtain ⟨p, rest, rfl⟩ := List.exists_cons_of_ne_nil hr.ne_nil
  refine ⟨p, rest, rfl, ?_, fun q hq => ?_⟩
  · have hp : placed s = ps ++ p :: (rest ++ qs) := by simp [h]
    rw [opensCompound_eq hp]
    rcases List.eq_nil_or_concat ps with rfl | ⟨ps, q, rfl⟩
    · rfl
    · rw [List.concat_eq_append, opensBehind_concat, Bool.not_eq_true']
      refine Bool.eq_false_iff.2 fun hsimple => hr.front q (by simp) ?_
      have hq : placed s = ps ++ (q :: p :: rest) ++ qs := by simp [h]
      exact isRun_of_placed hq (List.forall_mem_cons.2 ⟨hsimple, hr.run.1⟩)
  · obtain ⟨l, m, rfl⟩ := List.append_of_mem hq
    have hq : placed s = (ps ++ p :: l) ++ q :: (m ++ qs) := by simp [h]
    rw [opensCompound_eq hq]
    rcases List.eq_nil_or_concat (p :: l) with hn | ⟨l', x, hx⟩
    · cases hn
    · rw [List.concat_eq_append] at hx
      have hsimple : x.token.isSimple := hr.run.1 x (by
        rw [← List.cons_append, hx]
        simp)
      rw [hx, ← List.append_assoc, opensBehind_concat, hsimple]
      rfl

/-- The tokens of `s` that begin a compound are those behind a boundary. -/
structure ExactBoundaries (s : Text) (l : List Placed) : Prop where
  touching : ∀ ps p q qs, l = ps ++ p :: q :: qs → p.token.isSimple → q.token.isSimple →
    p.stop = q.start
  descendant : ∀ ps p qs w, l = ps ++ p :: qs → p.token = .combinator .descendant w →
    (∃ q ∈ ps.getLast?, q.token.isSimple) ∧ ∃ q ∈ qs.head?, q.token.isSimple
  opens : ∀ ps p qs, l = ps ++ p :: qs → p.token.isSimple →
    (p.opensCompound ↔ ps = [] ∨ ∃ (u : Text) (c : Char) (v : Text), s = u ++ c :: v ∧
      (∀ q ∈ ps, q.token.isSimple → q.stop ≤ u.byteLength) ∧ u.byteLength < p.start ∧
      (isBlank c ∨ c ∈ [',', '>', '+', '~']))
  first : ∀ ps rs qs, l = ps ++ rs ++ qs → MaximalRun ps rs qs →
    ∃ p rest, rs = p :: rest ∧ p.opensCompound ∧ ∀ q ∈ rest, q.opensCompound = false

/-- Compounds are exactly the maximal runs of simple selectors that touch. -/
theorem exactBoundaries_placed (s : Text) : ExactBoundaries s (placed s) where
  touching _ _ _ _ h := stop_eq_start h
  descendant _ _ _ _ h := isSimple_around_descendant h
  opens _ _ _ h := opensCompound_iff h
  first _ _ _ h := opensCompound_of_run h

end ComponentSheet.Selector
