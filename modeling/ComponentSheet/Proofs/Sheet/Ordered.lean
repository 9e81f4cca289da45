import ComponentSheet.Proofs.Sheet.Step

/-! The nodes of a sheet stand in its text in the order of the document. -/
namespace ComponentSheet

open Event

variable {c : Char} {p q q' : Position} {css t : Text} {n : Node} {frames : List Frame}
  {nodes sheet : List Node} {es : List Event}

/-- On an earlier line, or on the same line and further in front. -/
def Position.Before (p q : Position) : Prop :=
  p.line < q.line ∨ p.line = q.line ∧ p.column < q.column

theorem Position.Before.trans (h : p.Before q) (h' : q.Before q') : p.Before q' := by
  unfold Position.Before at *
  omega

theorem Position.before_next (p : Position) (c : Char) : p.Before (p.next c) := by
  rw [Position.next]
  split
  · exact .inl (Nat.lt_succ_self _)
  · exact .inr ⟨rfl, Nat.lt_succ_self _⟩

theorem pairwise_stamp (p : Position) (t : Text) :
    (p :: (stamp (p.next c) t).map (·.2)).Pairwise Position.Before := by
  induction t generalizing p c with
  | nil => exact List.pairwise_singleton _ _
  | cons d t ih =>
    have hnext := ih (c := d) (p.next c)
    rw [stamp_cons, List.map_cons, List.pairwise_cons]
    refine ⟨fun x hx => ?_, hnext⟩
    rcases List.mem_cons.1 hx with rfl | hx
    · exact p.before_next c
    · exact (p.before_next c).trans (List.rel_of_pairwise_cons hnext hx)

theorem pairwise_map_snd_stamp (p : Position) (t : Text) :
    ((stamp p t).map (·.2)).Pairwise Position.Before := by
  cases t with
  | nil => exact .nil
  | cons c t => exact pairwise_stamp p t

/-- Each event takes its position from a character behind those of the events in front of it. -/
theorem sublist_pos_eventsOf (s : Stamped) :
    ((eventsOf s).map Event.pos).Sublist (s.map (·.2)) := by
  rcases eventsOf_cases s with hs | ⟨ev, v, rest, hv, hst, hs⟩
  · rw [hs]
    exact List.nil_sublist _
  · have hlt := hst.length_lt hv
    obtain ⟨c, v', rfl, -, hr, -⟩ := hst.front
    have hbehind : ((eventsOf rest).map Event.pos).Sublist (v'.map (·.2)) :=
      (sublist_pos_eventsOf rest).trans (hr.sublist.map _)
    have hfront : (ev.pos :: v'.map (·.2)).Sublist (s.map (·.2)) := hv.sublist.map Prod.snd
    rw [hs]
    exact (hbehind.cons_cons _).trans hfront
termination_by s.length

/-- The position of the node that an event makes, or starts. -/
def Event.start? : Event → Option Position
  | opens _ p => some p
  | node n => some n.pos
  | closes _ | fault _ => none

theorem sublist_start (es : List Event) : (es.filterMap start?).Sublist (es.map Event.pos) := by
  induction es with
  | nil => exact .slnil
  | cons ev es ih =>
    cases ev with
    | opens | node => exact ih.cons_cons _
    | closes | fault => exact ih.cons _

theorem nodesWithin_append (l m : List Node) :
    nodesWithin (l ++ m) = nodesWithin l ++ nodesWithin m := by
  rw [nodesWithin_eq_flatMap, List.flatMap_append, ← nodesWithin_eq_flatMap,
    ← nodesWithin_eq_flatMap]

/-- The positions of the nodes that have been read, with those whose blocks are open. -/
def startsIn : List Frame → List Node → List Position
  | [], nodes => (nodesWithin nodes.reverse).map Node.pos
  | f :: frames, nodes =>
    startsIn frames f.before ++ f.pos :: (nodesWithin nodes.reverse).map Node.pos

theorem startsIn_cons (frames : List Frame) (n : Node) (nodes : List Node) :
    startsIn frames (n :: nodes) = startsIn frames nodes ++ (nodesWithin [n]).map Node.pos := by
  cases frames <;> simp [startsIn, nodesWithin_append]

theorem map_pos_nodesWithin_node (o : Opening) (p : Position) (l : List Node) :
    (nodesWithin [o.node p l]).map Node.pos = p :: (nodesWithin l).map Node.pos := by
  cases o <;> simp [Opening.node, nodesWithin, Node.pos]

theorem map_pos_nodesWithin_leaf (h : n.hasBlock = false) :
    (nodesWithin [n]).map Node.pos = [n.pos] := by
  simp [nodesWithin_leaf h, nodesWithin]

/-- The nodes of a sheet, parents in front of what is in their blocks, have the positions of the
events that they start with, in the order of the events. -/
theorem starts_of_nodesOfEvents (h : nodesOfEvents frames nodes es = .ok sheet)
    (hes : ∀ n, .node n ∈ es → n.hasBlock = false) :
    (nodesWithin sheet).map Node.pos = startsIn frames nodes ++ es.filterMap start? := by
  fun_induction nodesOfEvents frames nodes es with
  | case1 nodes =>
    cases h
    simp [startsIn]
  | case2 => cases h
  | case3 frames nodes opening pos es ih =>
    rw [ih h fun n hn => hes n (List.mem_cons_of_mem _ hn)]
    simp [startsIn, nodesWithin, start?]
  | case4 => cases h
  | case5 f frames nodes pos es ih =>
    rw [ih h fun n hn => hes n (List.mem_cons_of_mem _ hn), startsIn_cons,
      map_pos_nodesWithin_node]
    rfl
  | case6 frames nodes n es ih =>
    rw [ih h fun n hn => hes n (List.mem_cons_of_mem _ hn), startsIn_cons,
      map_pos_nodesWithin_leaf (hes n List.mem_cons_self)]
    simp [start?]
  | case7 => cases h

theorem hasBlock_of_mem_eventsOf {s : Stamped} (h : .node n ∈ eventsOf s) : n.hasBlock = false :=
  (makes_of_mem_eventsOf s _ h).1

/-- In document order each node of a sheet stands behind the one in front of it. -/
theorem pairwise_nodesWithin (h : readSheet css = .ok sheet) :
    (nodesWithin sheet).Pairwise fun m n => m.pos.Before n.pos := by
  have hstarts := starts_of_nodesOfEvents h fun n => hasBlock_of_mem_eventsOf
  have hsub : ((nodesWithin sheet).map Node.pos).Sublist ((stamp .first css).map (·.2)) := by
    rw [hstarts, startsIn, List.reverse_nil, nodesWithin, List.map_nil, List.nil_append]
    exact (sublist_start _).trans (sublist_pos_eventsOf _)
  exact List.pairwise_map.1 ((pairwise_map_snd_stamp _ _).sublist hsub)

end ComponentSheet
