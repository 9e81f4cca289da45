import ComponentSheet.Text.Basic

/-! What stands between two bytes of a text. -/
namespace ComponentSheet.Text

variable {s t t' u v : Text} {i j : Nat}

theorem byteLength_cons (c : Char) (s : Text) : byteLength (c :: s) = c.utf8Size + byteLength s :=
  rfl

theorem byteLength_pos (h : s ≠ []) : 0 < byteLength s := by
  obtain ⟨c, s, rfl⟩ := List.exists_cons_of_ne_nil h
  have hc := c.utf8Size_pos
  rw [byteLength_cons]
  omega

/-- From the byte `i` up to, but without, the byte `j`, the text `s` reads `t`. Both ends lie
between characters. -/
def Slice (s : Text) (i j : Nat) (t : Text) : Prop :=
  ∃ u v, s = u ++ t ++ v ∧ byteLength u = i ∧ i + byteLength t = j

theorem Slice.length_lt (h : Slice s i j t) (hi : 0 < i) : t.length < s.length := by
  obtain ⟨u, v, rfl, hu, -⟩ := h
  have hpos : u ≠ [] := by
    rintro rfl
    have hzero : 0 = i := hu
    omega
  have hl := List.length_pos_iff.2 hpos
  simp only [List.length_append]
  omega

theorem eq_nil_of_byteLength_append_le (h : byteLength (u ++ v) ≤ byteLength u) : v = [] := by
  refine Decidable.byContradiction fun hv => ?_
  have hp := byteLength_pos hv
  rw [byteLength_append] at h
  omega

/-- Of two prefixes of one text the one with fewer bytes is a prefix of the other. -/
theorem exists_eq_append_of_byteLength_le (h : u ++ s = v ++ t) (hl : byteLength u ≤ byteLength v) :
    ∃ w, v = u ++ w ∧ s = w ++ t := by
  rcases List.append_eq_append_iff.1 h with hw | ⟨w, rfl, rfl⟩
  · exact hw
  · obtain rfl := eq_nil_of_byteLength_append_le hl
    exact ⟨[], by simp⟩

/-- Prefixes of one text are the same if they have the same number of bytes. -/
theorem append_inj_of_byteLength (h : u ++ s = v ++ t) (hl : byteLength u = byteLength v) :
    u = v ∧ s = t := by
  obtain ⟨w, rfl, rfl⟩ := exists_eq_append_of_byteLength_le h (Nat.le_of_eq hl)
  obtain rfl := eq_nil_of_byteLength_append_le (Nat.le_of_eq hl.symm)
  simp

theorem Slice.unique (h : Slice s i j t) (h' : Slice s i j t') : t = t' := by
  obtain ⟨u, v, hs, hi, hj⟩ := h
  obtain ⟨u', v', hs', hi', hj'⟩ := h'
  rw [hs, List.append_assoc, List.append_assoc] at hs'
  obtain ⟨-, ht⟩ := append_inj_of_byteLength hs' (hi.trans hi'.symm)
  exact (append_inj_of_byteLength ht (by omega)).1

theorem splitBytes_byteLength (u v : Text) : splitBytes (byteLength u) (u ++ v) = (u, v) := by
  induction u with
  | nil =>
    cases v with
    | nil => rfl
    | cons c v =>
      have hc := c.utf8Size_pos
      rw [List.nil_append, splitBytes, if_neg]
      exact Nat.not_le.2 hc
  | cons c u ih =>
    rw [byteLength_cons, List.cons_append, splitBytes, if_pos (Nat.le_add_right _ _),
      Nat.add_sub_cancel_left, ih]

/-- The text in front of the byte `i`, the text from there up to the byte `j` and the text behind
it. There is no such cut if one of the bytes is behind the text or inside of a character, or if `j`
is in front of `i`. -/
def cut? (s : Text) (i j : Nat) : Option (Text × Text × Text) :=
  let front := splitBytes i s
  let middle := splitBytes (j - i) front.2
  if byteLength front.1 = i ∧ i + byteLength middle.1 = j then some (front.1, middle) else none

theorem cut?_eq_some_iff : cut? s i j = some (u, t, v) ↔
    s = u ++ t ++ v ∧ byteLength u = i ∧ i + byteLength t = j := by
  rw [cut?, Option.ite_none_right_eq_some]
  constructor
  · rintro ⟨⟨hi, hj⟩, h⟩
    obtain ⟨rfl, hm⟩ := Prod.mk.inj (Option.some.inj h)
    rw [hm] at hj
    have hs := splitBytes_append (j - i) (splitBytes i s).2
    rw [hm] at hs
    refine ⟨?_, hi, hj⟩
    rw [List.append_assoc, hs, splitBytes_append]
  · rintro ⟨rfl, rfl, rfl⟩
    rw [List.append_assoc, splitBytes_byteLength, Nat.add_sub_cancel_left, splitBytes_byteLength]
    exact ⟨⟨rfl, rfl⟩, rfl⟩

/-- The text from the byte `i` up to, but without, the byte `j`, if both lie between characters. -/
def slice? (s : Text) (i j : Nat) : Option Text :=
  (cut? s i j).map (·.2.1)

theorem slice?_eq_some_iff : slice? s i j = some t ↔ Slice s i j t := by
  simp [slice?, Slice, cut?_eq_some_iff]

end ComponentSheet.Text
