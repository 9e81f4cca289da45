import ComponentSheet.Proofs.Selector.Rereading
import ComponentSheet.Selector.Placed

/-! Where the tokens of a text stand among its segments. -/
namespace ComponentSheet.Selector

open Reading

variable {b : Bool} {i : Nat} {s v : Text} {t : Token} {k l m : List Segment}
  {p q : Placed} {ps qs : List Placed}

/-- The token behind `n` more bytes. It ends, and its arguments stand, as much further on. -/
def Placed.shifted (n : Nat) (p : Placed) : Placed :=
  { p with start := p.start + n }

@[simp] theorem Placed.stop_shifted (n : Nat) (p : Placed) : (p.shifted n).stop = p.stop + n :=
  Nat.add_right_comm _ _ _

@[simp] theorem Placed.argumentRange?_shifted (n : Nat) (p : Placed) :
    (p.shifted n).argumentRange? = p.argumentRange?.map fun r => (r.1 + n, r.2 + n) := by
  rw [argumentRange?, argumentRange?, Option.map_map]
  congr 1
  funext a
  simp only [shifted, Function.comp_apply, Prod.mk.injEq]
  omega

theorem placedFrom_shifted (n i : Nat) (b : Bool) (l : List Segment) :
    placedFrom (i + n) b l = (placedFrom i b l).map (Placed.shifted n) := by
  fun_induction placedFrom i b l with
  | case1 => rfl
  | case2 i b w l ih => rw [placedFrom, Nat.add_right_comm, ih]
  | case3 i b t l ih =>
    rw [placedFrom, Nat.add_right_comm, ih]
    rfl

theorem placedFrom_append (i : Nat) (b : Bool) (l m : List Segment) :
    placedFrom i b (l ++ m) =
      placedFrom i b l ++ placedFrom (i + (textOf l).byteLength) (continuesAfter b l) m := by
  fun_induction placedFrom i b l with
  | case1 => rfl
  | case2 i b w l ih =>
    rw [List.cons_append, placedFrom, ih, textOf_cons, Text.byteLength_append, Nat.add_assoc]
    rfl
  | case3 i b t l ih =>
    rw [List.cons_append, placedFrom, ih, textOf_cons, Text.byteLength_append, ← Nat.add_assoc]
    rfl

/-- A place belongs to a segment. The places in front of it and behind it are those of the segments
in front and behind. -/
theorem exists_of_placedFrom (h : placedFrom i b k = ps ++ p :: qs) :
    ∃ l m, k = l ++ .token p.token :: m ∧ ps = placedFrom i b l ∧
      p.start = i + (textOf l).byteLength ∧ p.opensCompound = !continuesAfter b l ∧
      qs = placedFrom p.stop p.token.isSimple m := by
  fun_induction placedFrom i b k generalizing ps with
  | case1 => simp at h
  | case2 i b w k ih =>
    obtain ⟨l, m, rfl, hps, hi, hb, hqs⟩ := ih h
    refine ⟨.blanks w :: l, m, rfl, hps, ?_, hb, hqs⟩
    rw [hi, textOf_cons, Text.byteLength_append, Nat.add_assoc]
    rfl
  | case3 i b t k ih =>
    cases ps with
    | nil =>
      obtain ⟨rfl, rfl⟩ := List.cons.inj h
      exact ⟨[], k, rfl, rfl, rfl, rfl, rfl⟩
    | cons q ps =>
      obtain ⟨rfl, hk⟩ := List.cons.inj h
      obtain ⟨l, m, rfl, rfl, hi, hb, hqs⟩ := ih hk
      refine ⟨.token t :: l, m, rfl, rfl, ?_, hb, hqs⟩
      rw [hi, textOf_cons, Text.byteLength_append, Nat.add_assoc]
      rfl

/-- The segments around a token of a text. -/
theorem exists_of_placed (h : placed s = ps ++ p :: qs) :
    ∃ l v, s = textOf l ++ (p.token.lexeme ++ v) ∧ ps = placedFrom 0 false l ∧
      p.start = (textOf l).byteLength ∧ p.opensCompound = !continuesAfter false l ∧
      (Segment.token p.token).Reads (continuesAfter false l) v ∧
      qs = placedFrom p.stop p.token.isSimple (segmentsFrom p.token.isSimple v) := by
  obtain ⟨l, m, hs, hps, hi, hb, hqs⟩ := exists_of_placedFrom h
  have hm := segmentsFrom_textOf (l := l ++ [.token p.token]) (m := m)
    (by rw [← segments, hs]; simp)
  refine ⟨l, textOf m, ?_, hps, by rw [hi, Nat.zero_add], hb, reads_of_segmentsFrom hs, ?_⟩
  · rw [← textOf_segments s, hs]
    simp [textOf, Segment.text]
  · rw [hqs]
    congr 1
    rw [continuesAfter, List.foldl_append] at hm
    exact hm.symm

theorem exists_of_mem_placed (h : p ∈ placed s) :
    ∃ u v b, s = u ++ (p.token.lexeme ++ v) ∧ u.byteLength = p.start ∧
      (Segment.token p.token).Reads b v := by
  obtain ⟨ps, qs, hs⟩ := List.append_of_mem h
  obtain ⟨l, v, ht, -, hi, -, hr, -⟩ := exists_of_placed hs
  exact ⟨textOf l, v, _, ht, hi.symm, hr⟩

theorem exists_mem_placed (h : segments s = l ++ .token t :: m) :
    ∃ p ∈ placed s, p.token = t ∧ p.start = (textOf l).byteLength := by
  rw [placed, h, placedFrom_append, placedFrom]
  exact ⟨_, List.mem_append_right _ List.mem_cons_self, rfl, Nat.zero_add _⟩

theorem start_le_of_mem_placedFrom (h : p ∈ placedFrom i b l) : i ≤ p.start := by
  obtain ⟨ps, qs, hl⟩ := List.append_of_mem h
  obtain ⟨m, n, -, -, hi, -⟩ := exists_of_placedFrom hl
  omega

theorem pairwise_placedFrom (i : Nat) (b : Bool) (l : List Segment) :
    (placedFrom i b l).Pairwise fun p q => p.stop ≤ q.start := by
  fun_induction placedFrom i b l with
  | case1 => exact .nil
  | case2 i b w l ih => exact ih
  | case3 i b t l ih => exact .cons (fun q hq => start_le_of_mem_placedFrom hq) ih

/-- Whether a token behind these is the first simple selector of its compound. -/
def opensBehind (ps : List Placed) : Bool :=
  ps.getLast?.all fun p => !p.token.isSimple

theorem continuesAfter_eq (i : Nat) (b : Bool) (l : List Segment) :
    continuesAfter b l = (placedFrom i b l).getLast?.elim b (·.token.isSimple) := by
  fun_induction placedFrom i b l with
  | case1 => rfl
  | case2 i b w l ih => exact ih
  | case3 i b t l ih =>
    rw [continuesAfter_cons, Segment.continues, ih, List.getLast?_cons]
    cases (placedFrom (i + t.lexeme.byteLength) t.isSimple l).getLast? <;> rfl

theorem opensBehind_placedFrom (i : Nat) (l : List Segment) :
    opensBehind (placedFrom i false l) = !continuesAfter false l := by
  rw [continuesAfter_eq i, opensBehind]
  cases (placedFrom i false l).getLast? <;> rfl

theorem opensCompound_eq (h : placed s = ps ++ p :: qs) : p.opensCompound = opensBehind ps := by
  obtain ⟨l, v, -, hps, -, hb, -⟩ := exists_of_placed h
  rw [hb, hps, opensBehind_placedFrom]

end ComponentSheet.Selector
