import ComponentSheet.Text.Casing

/-! What the tables of letter case say of all characters: the lower case of a character is its own
lower case, and no upper-case character has become it. -/
namespace ComponentSheet

variable {a b : CodeRun} {n target : Nat} {c d : Char}

namespace CodeRun

theorem contains_iff :
    a.contains n ↔ (a.first ≤ n ∧ n ≤ a.last) ∧ (n - a.first) % a.step = 0 := by
  simp [contains]

/-- No two neighbouring code points are in the run. -/
def isSparse (a : CodeRun) : Bool :=
  a.first == a.last || a.step == 2

/-- One run ends in front of the other, or there is an odd distance between sparse ones. -/
def avoids (a b : CodeRun) : Bool :=
  a.last.blt b.first || b.last.blt a.first ||
    a.isSparse && b.isSparse && (a.first + b.first) % 2 == 1

theorem even_of_isSparse (hs : a.isSparse) (h : a.contains n) : (n - a.first) % 2 = 0 := by
  obtain ⟨⟨hfirst, hlast⟩, hstep⟩ := contains_iff.1 h
  rw [isSparse, Bool.or_eq_true, beq_iff_eq, beq_iff_eq] at hs
  rcases hs with hs | hs
  · omega
  · rwa [hs] at hstep

theorem contains_eq_false_of_avoids (h : a.avoids b) (ha : a.contains n) :
    b.contains n = false := by
  refine Bool.eq_false_iff.2 fun hb => ?_
  obtain ⟨⟨ha₁, ha₂⟩, -⟩ := contains_iff.1 ha
  obtain ⟨⟨hb₁, hb₂⟩, -⟩ := contains_iff.1 hb
  simp only [avoids, Bool.or_eq_true, Bool.and_eq_true, Nat.blt_eq, beq_iff_eq] at h
  rcases h with (h | h) | ⟨⟨hsa, hsb⟩, hodd⟩
  · omega
  · omega
  · have hea := even_of_isSparse hsa ha
    have heb := even_of_isSparse hsb hb
    omega

/-- The run that starts at `target` and goes on like `a`. -/
def shifted (a : CodeRun) (target : Nat) : CodeRun :=
  ⟨target, target + (a.last - a.first), a.step⟩

theorem contains_shifted (h : a.contains n) (target : Nat) :
    (a.shifted target).contains (target + (n - a.first)) := by
  obtain ⟨⟨hfirst, hlast⟩, hstep⟩ := contains_iff.1 h
  refine contains_iff.2 ⟨⟨Nat.le_add_right _ _, ?_⟩, ?_⟩
  · simp only [shifted]
    omega
  · simpa [shifted] using hstep

end CodeRun

theorem toNat_ofNat_or (n : Nat) : (Char.ofNat n).toNat = n ∨ Char.ofNat n = '\x00' := by
  by_cases hv : n.isValidChar
  · have hc : Char.ofNat n = Char.ofNatAux n hv := dif_pos hv
    exact .inl (hc ▸ rfl)
  · exact .inr (dif_neg hv)

theorem lowered_ne_nil (c : Char) : lowered c ≠ [] := by
  rw [lowered]
  split
  · simp
  · split <;> simp

/-- A character of a lower case is that of a row of the table, if it is not one of those that come
of the capital I with a dot, or the character itself. -/
theorem mem_lowered (h : d ∈ lowered c) :
    (c = '\u0130' ∧ (d = 'i' ∨ d = '\u0307')) ∨
      (∃ p ∈ Casing.loweredRuns, p.1.contains c.toNat ∧
        d = Char.ofNat (p.2 + (c.toNat - p.1.first))) ∨
      (lowered c = [c] ∧ d = c) := by
  rw [lowered] at h ⊢
  split at h
  · rename_i hc
    exact .inl ⟨hc, by simpa using h⟩
  · rename_i hc
    rw [if_neg hc]
    split at h
    · rename_i r target hr
      exact .inr (.inl ⟨(r, target), List.mem_of_find?_eq_some hr,
        by simpa using List.find?_some hr, by simpa using h⟩)
    · exact .inr (.inr ⟨rfl, by simpa using h⟩)

/-- The characters in front of the small letters are the lower case of nothing else. -/
theorem eq_of_mem_lowered (h : d ∈ lowered c) (hd : 0 < d.toNat ∧ d.toNat < 'a'.toNat) : d = c := by
  have ha : 'a'.toNat = 97 := rfl
  rcases mem_lowered h with ⟨-, rfl | rfl⟩ | ⟨p, hp, -, rfl⟩ | ⟨-, hc⟩
  · exact absurd hd (by decide)
  · exact absurd hd (by decide)
  · have hall : ∀ p ∈ Casing.loweredRuns, 'a'.toNat ≤ p.2 := by decide +kernel
    have hp := hall p hp
    rcases toNat_ofNat_or (p.2 + (c.toNat - p.1.first)) with hn | hn
    · omega
    · rw [hn] at hd
      exact absurd hd.1 (by decide)
  · exact hc

/-- Nothing is lowered to a code point that is lowered to another one, or to that of a capital. -/
theorem shifted_avoids :
    Casing.loweredRuns.all fun p =>
      (Casing.loweredRuns.map (·.1) ++ Casing.upperRuns).all (p.1.shifted p.2).avoids := by
  decide +kernel

theorem lowered_of_contains (hc : c ≠ '\u0130')
    (h : ∀ p ∈ Casing.loweredRuns, p.1.contains c.toNat = false) : lowered c = [c] := by
  have hnone : Casing.loweredRuns.find? (·.1.contains c.toNat) = none :=
    List.find?_eq_none.2 fun p hp => by simp [h p hp]
  rw [lowered, if_neg hc, hnone]

/-- A character is its own lower case, or its lower case is none of capitals and goes no lower. -/
theorem lowered_cases (c : Char) :
    lowered c = [c] ∨ ∀ d ∈ lowered c, lowered d = [d] ∧ isUpper d = false := by
  by_cases hself : lowered c = [c]
  · exact .inl hself
  refine .inr fun d hd => ?_
  rcases mem_lowered hd with ⟨-, rfl | rfl⟩ | ⟨p, hp, hc, rfl⟩ | ⟨hc, -⟩
  · decide +kernel
  · decide +kernel
  · rcases toNat_ofNat_or (p.2 + (c.toNat - p.1.first)) with hn | hn
    · have hshift := CodeRun.contains_shifted hc p.2
      have hnot : ∀ q ∈ Casing.loweredRuns.map (·.1) ++ Casing.upperRuns,
          q.contains (p.2 + (c.toNat - p.1.first)) = false := fun q hq =>
        CodeRun.contains_eq_false_of_avoids
          (List.all_eq_true.1 (List.all_eq_true.1 shifted_avoids p hp) q hq) hshift
      generalize Char.ofNat (p.2 + (c.toNat - p.1.first)) = d at hn
      rw [← hn] at hnot
      simp only [List.forall_mem_append, List.forall_mem_map] at hnot
      have hupper : isUpper d = false := by
        rw [isUpper, List.any_eq_false]
        exact fun q hq => by simp [hnot.2 q hq]
      refine ⟨lowered_of_contains ?_ hnot.1, hupper⟩
      rintro rfl
      exact absurd hupper (by decide +kernel)
    · rw [hn]
      decide +kernel
  · exact absurd hc hself

end ComponentSheet
