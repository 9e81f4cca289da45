import ComponentSheet.Proofs.Selector.Lossless
import ComponentSheet.Proofs.Text.Splice
import ComponentSheet.Selector.Branded

/-! A selector comes into the scheme of a component by edits of some of its tokens, made all at
once. -/
namespace ComponentSheet.Selector

open Reading Text

variable {component : Text} {p : Placed}

/-- Whether a token is written anew in the scheme of a component. -/
def Placed.isRewritten (component : Text) (p : Placed) : Bool :=
  match p.token with
  | .className name => p.opensCompound && !isBranded component name
  | .idName _ => true
  | .pseudoClass name _ => name = "host".toList
  | _ => false

/-- The edit that writes a token anew. -/
def Placed.branding (component : Text) (p : Placed) : Edit :=
  ⟨p.start, p.stop, brandedToken component p.opensCompound p.token⟩

/-- The edits that bring the tokens of a selector into the scheme of a component. -/
def brandings (component s : Text) : List Edit :=
  ((placed s).filter (Placed.isRewritten component)).map (Placed.branding component)

theorem brandedToken_of_not_isRewritten (h : ¬ p.isRewritten component) :
    brandedToken component p.opensCompound p.token = p.token.lexeme := by
  obtain ⟨t, i, b⟩ := p
  cases t with
  | className name => exact if_neg h
  | idName name => exact absurd rfl h
  | pseudoClass name args => exact if_neg fun hn => h (decide_eq_true hn)
  | _ => rfl

theorem spliced_placedFrom (component : Text) (i : Nat) (b : Bool) (l : List Segment) :
    Spliced i (textOf l)
      (((placedFrom i b l).filter (Placed.isRewritten component)).map (Placed.branding component))
      (brandedSegments component b l) := by
  fun_induction placedFrom i b l with
  | case1 => exact .rest _ _
  | case2 i b w l ih => exact ih.kept
  | case3 i b t l ih =>
    by_cases hr : Placed.isRewritten component ⟨t, i, !b⟩
    · rw [List.filter_cons_of_pos hr, List.map_cons]
      exact @Spliced.edit i [] t.lexeme _ _ (Placed.branding component ⟨t, i, !b⟩) _ rfl rfl ih
    · have ht : brandedToken component (!b) t = t.lexeme := brandedToken_of_not_isRewritten hr
      rw [List.filter_cons_of_neg hr, brandedSegments, ht]
      exact ih.kept

theorem pairwise_brandings (component s : Text) :
    (brandings component s).Pairwise fun a b => a.stop ≤ b.start ∧ a.start < b.start := by
  refine List.pairwise_map.2 (((pairwise_placedFrom 0 false (segments s)).imp_of_mem ?_).filter _)
  intro p q hp _ h
  exact ⟨h, Nat.lt_of_lt_of_le (start_lt_stop hp) h⟩

theorem separate_brandings (component s : Text) : Separate s (brandings component s) where
  liesIn e he := by
    obtain ⟨p, hp, rfl⟩ := List.mem_map.1 he
    obtain ⟨u, v, b, hs, hu, -⟩ := exists_of_mem_placed (List.mem_filter.1 hp).1
    exact ⟨p.token.lexeme, u, v, by rw [hs, List.append_assoc], hu, rfl⟩
  apart := (pairwise_brandings component s).imp fun h => .inl h.1
  starts := List.pairwise_map.2 ((pairwise_brandings component s).imp fun h => Nat.ne_of_lt h.2)

/-- The selector in the scheme of a component is the one with these edits, all made at once. -/
theorem splice_brandings (component s : Text) :
    splice s (brandings component s) = branded component s := by
  have ho : leftToRight (brandings component s) = brandings component s :=
    leftToRight_eq (separate_brandings component s).starts (.refl _)
      ((pairwise_brandings component s).imp fun h => Nat.le_of_lt h.2)
  have h := spliced_placedFrom component 0 false (segments s)
  rw [textOf_segments] at h
  exact (congrArg (spliceFrom 0 s) ho).trans h.spliceFrom_eq

end ComponentSheet.Selector
