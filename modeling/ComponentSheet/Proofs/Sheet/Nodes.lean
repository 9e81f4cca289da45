import ComponentSheet.Sheet.Reading

/-! The nodes of a sheet at any depth, and the events that they come from. -/
namespace ComponentSheet

variable {n : Node} {selector name params : Text} {p : Position}
  {nodes children l m sheet : List Node} {frames : List Frame} {es : List Event}
  {e : ReadError} {P : Node → Prop}

/-- The nodes of a sheet at any depth. -/
def nodesWithin : List Node → List Node
  | [] => []
  | .rule selector children pos :: l =>
    .rule selector children pos :: nodesWithin children ++ nodesWithin l
  | .block name params children pos :: l =>
    .block name params children pos :: nodesWithin children ++ nodesWithin l
  | n :: l => n :: nodesWithin l

theorem nodesWithin_cons (n : Node) (l : List Node) :
    nodesWithin (n :: l) = nodesWithin [n] ++ nodesWithin l := by
  cases n <;> simp [nodesWithin]

theorem nodesWithin_leaf (h : n.hasBlock = false) : nodesWithin (n :: l) = n :: nodesWithin l := by
  cases n <;> simp_all [nodesWithin, Node.hasBlock]

theorem nodesWithin_eq_flatMap (l : List Node) :
    nodesWithin l = l.flatMap fun n => nodesWithin [n] := by
  induction l with
  | nil => rw [nodesWithin, List.flatMap_nil]
  | cons n l ih => rw [nodesWithin_cons, List.flatMap_cons, ih]

theorem mem_nodesWithin_self (n : Node) (l : List Node) : n ∈ nodesWithin (n :: l) := by
  cases n <;> simp [nodesWithin]

theorem nodesWithin_rule_children :
    nodesWithin children ⊆ nodesWithin [.rule selector children p] := by
  simp [nodesWithin]

theorem nodesWithin_block_children :
    nodesWithin children ⊆ nodesWithin [.block name params children p] := by
  simp [nodesWithin]

theorem nodesWithin_head (n : Node) (l : List Node) : nodesWithin [n] ⊆ nodesWithin (n :: l) := by
  rw [nodesWithin_cons n l]
  exact List.subset_append_left _ _

theorem nodesWithin_tail (n : Node) (l : List Node) : nodesWithin l ⊆ nodesWithin (n :: l) := by
  rw [nodesWithin_cons n l]
  exact List.subset_append_right _ _

theorem mem_nodesWithin_reverse : n ∈ nodesWithin l.reverse ↔ n ∈ nodesWithin l := by
  rw [nodesWithin_eq_flatMap, nodesWithin_eq_flatMap l]
  simp only [List.mem_flatMap, List.mem_reverse]

theorem forall_nodesWithin_node (o : Opening) (pos : Position)
    (h : ∀ children, P (o.node pos children)) (hl : ∀ n ∈ nodesWithin l, P n) :
    ∀ n ∈ nodesWithin [o.node pos l], P n := by
  cases o <;> simpa [Opening.node, nodesWithin, List.forall_mem_cons] using ⟨h l, hl⟩

/-- What holds of a node that comes of an event, whatever is in its block. -/
def Event.Makes (P : Node → Prop) : Event → Prop
  | opens opening pos => ∀ children, P (opening.node pos children)
  | node n => n.hasBlock = false ∧ P n
  | closes _ | fault _ => True

theorem Event.Makes.mono {Q : Node → Prop} {ev : Event} (h : ev.Makes P) (hpq : ∀ n, P n → Q n) :
    ev.Makes Q := by
  cases ev with
  | opens opening pos => exact fun children => hpq _ (h children)
  | node n => exact ⟨h.1, hpq n h.2⟩
  | closes | fault => trivial

def Event.pos : Event → Position
  | opens _ p | closes p => p
  | node n => n.pos
  | fault e => e.pos

/-- What holds of a frame and the nodes in front of it. -/
def Frame.Makes (P : Node → Prop) (f : Frame) : Prop :=
  (∀ children, P (f.opening.node f.pos children)) ∧ ∀ n ∈ nodesWithin f.before, P n

theorem forall_nodesWithin (h : nodesOfEvents frames nodes es = .ok sheet)
    (hes : ∀ e ∈ es, e.Makes P) (hnodes : ∀ n ∈ nodesWithin nodes, P n)
    (hframes : ∀ f ∈ frames, f.Makes P) : ∀ n ∈ nodesWithin sheet, P n := by
  fun_induction nodesOfEvents frames nodes es with
  | case1 nodes =>
    cases h
    exact fun n hn => hnodes n (mem_nodesWithin_reverse.1 hn)
  | case2 => cases h
  | case3 frames nodes opening pos es ih =>
    rw [List.forall_mem_cons] at hes
    refine ih h hes.2 (by simp [nodesWithin]) ?_
    rw [List.forall_mem_cons]
    exact ⟨⟨hes.1, hnodes⟩, hframes⟩
  | case4 => cases h
  | case5 f frames nodes pos es ih =>
    rw [List.forall_mem_cons] at hes hframes
    refine ih h hes.2 ?_ hframes.2
    rw [nodesWithin_cons, List.forall_mem_append]
    refine ⟨forall_nodesWithin_node f.opening f.pos hframes.1.1 fun n hn => ?_, hframes.1.2⟩
    exact hnodes n (mem_nodesWithin_reverse.1 hn)
  | case6 frames nodes n es ih =>
    rw [List.forall_mem_cons] at hes
    refine ih h hes.2 ?_ hframes
    rw [nodesWithin_leaf hes.1.1, List.forall_mem_cons]
    exact ⟨hes.1.2, hnodes⟩
  | case7 => cases h

/-- Why events make no sheet: a block is open at the end, where the events behind its start make a
sheet for themselves, or a brace closes no block, or there is a fault. -/
inductive Refused : List Event → ReadError → Prop
  | unclosed (es : List Event) (opening : Opening) (p : Position) {es' : List Event}
    {sheet : List Node} (h : nodesOfEvents [] [] es' = .ok sheet) :
    Refused (es ++ .opens opening p :: es') (.unclosedBlock p)
  | unopened (es : List Event) (p : Position) (es' : List Event) :
    Refused (es ++ .closes p :: es') (.unexpectedClose p)
  | fault (es : List Event) (e : ReadError) (es' : List Event) : Refused (es ++ .fault e :: es') e

theorem Refused.cons (h : Refused es e) (ev : Event) : Refused (ev :: es) e := by
  cases h with
  | unclosed es opening p h => exact .unclosed (ev :: es) opening p h
  | unopened es p es' => exact .unopened (ev :: es) p es'
  | fault es e es' => exact .fault (ev :: es) e es'

/-- If events are refused behind others, it is because of them, or a block that is open already is
still open at their end, while those inside of it have been closed. -/
theorem refused_of_nodesOfEvents (h : nodesOfEvents frames nodes es = .error e) :
    Refused es e ∨ ∃ inner f outer sheet, frames = inner ++ f :: outer ∧ e = .unclosedBlock f.pos ∧
      nodesOfEvents inner nodes es = .ok sheet := by
  fun_induction nodesOfEvents frames nodes es with
  | case1 => cases h
  | case2 f frames nodes =>
    cases h
    -- The innermost open block is the one that is reported: there are none inside of it.
    exact .inr ⟨[], f, frames, nodes.reverse, rfl, rfl, rfl⟩
  | case3 frames nodes opening pos es ih =>
    rcases ih h with hr | ⟨inner, f, outer, sheet, hf, he, hs⟩
    · exact .inl (hr.cons _)
    · cases inner with
      | nil =>
        obtain ⟨rfl, -⟩ := List.cons.inj hf
        subst he
        exact .inl (.unclosed [] opening pos hs)
      | cons f' inner =>
        obtain ⟨rfl, rfl⟩ := List.cons.inj hf
        refine .inr ⟨inner, f, outer, sheet, rfl, he, ?_⟩
        rw [nodesOfEvents, hs]
  | case4 nodes pos es =>
    cases h
    exact .inl (.unopened [] pos es)
  | case5 f' frames nodes pos es ih =>
    rcases ih h with hr | ⟨inner, f, outer, sheet, rfl, he, hs⟩
    · exact .inl (hr.cons _)
    · refine .inr ⟨f' :: inner, f, outer, sheet, rfl, he, ?_⟩
      rw [nodesOfEvents, hs]
  | case6 frames nodes n es ih =>
    rcases ih h with hr | ⟨inner, f, outer, sheet, rfl, he, hs⟩
    · exact .inl (hr.cons _)
    · refine .inr ⟨inner, f, outer, sheet, rfl, he, ?_⟩
      rw [nodesOfEvents, hs]
  | case7 frames nodes e es =>
    cases h
    exact .inl (.fault [] e es)

theorem Refused.exists_pos (h : Refused es e) : ∃ ev ∈ es, ev.pos = e.pos := by
  cases h with
  | unclosed es opening p h => exact ⟨.opens opening p, by simp, rfl⟩
  | unopened es p es' => exact ⟨.closes p, by simp, rfl⟩
  | fault es e es' => exact ⟨.fault e, by simp, rfl⟩

theorem refused_of_readSheet {css : Text} (h : readSheet css = .error e) :
    Refused (eventsOf (stamp .first css)) e := by
  rcases refused_of_nodesOfEvents h with hr | ⟨inner, f, outer, sheet, hf, -, -⟩
  · exact hr
  · simp at hf

end ComponentSheet
