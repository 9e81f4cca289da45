import ComponentSheet.Proofs.Sheet.Ordered
import Mathlib.Data.List.Induction

/-! The positions of nodes and of faults are those of the characters that they start with. -/
namespace ComponentSheet

open Event

variable {c : Char} {css t : Text} {p q : Position} {v w : Stamped} {e : ReadError} {ev : Event}
  {sheet : List Node} {es : List Event}

/-- The position behind a text: one more than its line breaks, and one more than the characters
behind the last of them. -/
def Position.behind (u : Text) : Position :=
  ⟨1 + u.count '\n', 1 + (u.reverse.takeWhile (· ≠ '\n')).length⟩

theorem Position.behind_concat (u : Text) (c : Char) : behind (u ++ [c]) = (behind u).next c := by
  by_cases hc : c = '\n'
  · simp [behind, next, hc]
    omega
  · simp [behind, next, hc]
    omega

theorem Position.after_first (u : Text) : first.after u = behind u := by
  induction u using List.reverseRecOn with
  | nil => rfl
  | append_singleton u c ih =>
    rw [after_append, ih, behind_concat]
    rfl

/-- At the position, the text goes on with `t`. -/
def GoesOn (css : Text) (p : Position) (t : Text) : Prop :=
  ∃ u, css = u ++ t ∧ p = Position.behind u

/-- Reading the text comes to the position, and goes on with what is read of `t`. -/
def Reaches (css : Text) (p : Position) (t : Text) : Prop :=
  GoesOn css p t ∧ ∃ es, eventsOf (stamp .first css) = es ++ eventsOf (stamp p t)

theorem exists_of_stamp_eq_append (h : stamp p t = v ++ w) :
    ∃ a b, t = a ++ b ∧ v = stamp p a ∧ w = stamp (p.after a) b := by
  induction v generalizing p t with
  | nil => exact ⟨[], t, rfl, rfl, h.symm⟩
  | cons x v ih =>
    cases t with
    | nil => cases h
    | cons c t =>
      obtain ⟨rfl, htail⟩ := List.cons.inj h
      obtain ⟨a, b, rfl, rfl, rfl⟩ := ih htail
      exact ⟨c :: a, b, rfl, rfl, rfl⟩

theorem exists_goesOn_of_suffix (h : (c, p) :: v <:+ stamp .first css) :
    ∃ t, v = stamp (p.next c) t ∧ GoesOn css p (c :: t) := by
  obtain ⟨w, hw⟩ := h
  obtain ⟨a, b, rfl, -, hb⟩ := exists_of_stamp_eq_append hw.symm
  cases b with
  | nil => cases hb
  | cons d t =>
    obtain ⟨hx, rfl⟩ := List.cons.inj hb
    obtain ⟨rfl, rfl⟩ := Prod.mk.inj hx
    exact ⟨t, rfl, a, rfl, Position.after_first a⟩

theorem exists_body_of_suffix (h : ('{', q) :: w <:+ stamp p t) :
    ∃ header body, t = header ++ '{' :: body ∧ w = stamp (p.after (header ++ ['{'])) body := by
  obtain ⟨v, hv⟩ := h
  obtain ⟨header, b, rfl, -, hb⟩ := exists_of_stamp_eq_append hv.symm
  cases b with
  | nil => cases hb
  | cons d body =>
    obtain ⟨hx, rfl⟩ := List.cons.inj hb
    obtain ⟨rfl, rfl⟩ := Prod.mk.inj hx
    exact ⟨header, body, rfl, by simp⟩

/-- The event that a node starts with. -/
def Event.Starts (n : Node) : Event → Prop
  | opens opening p => ∃ children, n = opening.node p children
  | node m => n = m
  | closes _ | fault _ => False

/-- At its position, the text goes on with the first character of the node, and there the node is
what is read first. -/
def Node.StandsIn (css : Text) (n : Node) : Prop :=
  ∃ c t ev es, Reaches css n.pos (c :: t) ∧ n.firstChar? = some c ∧
    eventsOf (stamp n.pos (c :: t)) = ev :: es ∧ ev.Starts n

theorem makes_standsIn (h : ev ∈ eventsOf (stamp .first css)) : ev.Makes (Node.StandsIn css) := by
  obtain ⟨es, es', hes⟩ := List.append_of_mem h
  obtain ⟨v, rest, hv, ⟨⟨c, v', rfl, -, -, hmakes⟩, htakes⟩, rfl⟩ := exists_standsAt_of_eventsOf hes
  obtain ⟨t, rfl, ht⟩ := exists_goesOn_of_suffix hv
  cases ev with
  | opens opening p =>
    intro children
    obtain ⟨hpos, hc⟩ := hmakes children
    have hfirst : eventsOf (stamp p (c :: t)) = _ := htakes.1
    refine ⟨c, t, .opens opening p, eventsOf rest, ?_, hc, ?_, children, rfl⟩
    · rw [hpos]
      exact ⟨ht, es, hfirst ▸ hes⟩
    · rw [hpos]
      exact hfirst
  | node n =>
    have hfirst : eventsOf (stamp n.pos (c :: t)) = _ := htakes
    exact ⟨hmakes.1, c, t, .node n, eventsOf rest, ⟨ht, es, hfirst ▸ hes⟩, hmakes.2.2, hfirst, rfl⟩
  | closes | fault => trivial

theorem standsIn_of_nodesWithin (h : readSheet css = .ok sheet) :
    ∀ n ∈ nodesWithin sheet, n.StandsIn css :=
  forall_nodesWithin h (fun _ => makes_standsIn) (by simp [nodesWithin]) (by simp)

theorem moved_stamp (f : Position → Position) (h : ∀ p q, f p = f q) (p q : Position) (t : Text) :
    (stamp p t).moved f = (stamp q t).moved f := by
  induction t generalizing p q with
  | nil => rfl
  | cons c t ih => rw [stamp_cons, stamp_cons, Stamped.moved_cons, Stamped.moved_cons, h p q, ih]

/-- Where a text starts does not matter for whether it is a sheet. -/
theorem exists_readSheet_of_stamp (h : nodesOfEvents [] [] (eventsOf (stamp p t)) = .ok sheet) :
    ∃ sheet, readSheet t = .ok sheet := by
  -- With all positions moved to one, both texts are the same.
  let f : Position → Position := fun _ => .unknown
  have hmoved : movedOutcome f (Node.movedAll f) (readSheet t) = .ok (Node.movedAll f sheet) := by
    calc movedOutcome f (Node.movedAll f) (readSheet t)
        = nodesOfEvents [] [] ((eventsOf (stamp .first t)).map (Event.moved f)) :=
          (nodesOfEvents_moved [] [] _).symm
      _ = nodesOfEvents [] [] ((eventsOf (stamp p t)).map (Event.moved f)) := by
          rw [← eventsOf_moved, ← eventsOf_moved, moved_stamp f (fun _ _ => rfl) .first p]
      _ = .ok (Node.movedAll f sheet) := by
          have hsheet :
              movedOutcome f (Node.movedAll f) (.ok sheet) = .ok (Node.movedAll f sheet) := rfl
          rw [← hsheet, ← h]
          exact nodesOfEvents_moved [] [] _
  cases hr : readSheet t with
  | ok sheet => exact ⟨sheet, rfl⟩
  | error e =>
    rw [hr] at hmoved
    cases hmoved

/-- What stands in a text where reading it fails. -/
inductive ReadError.StandsIn (css : Text) : ReadError → Prop
  /-- At a block whose body is a sheet for itself, up to the end of the text. So all blocks in it
  are closed, and this one is not. -/
  | unclosedBlock {opening : Opening} {p : Position} {header body : Text} {sheet : List Node}
    (h : Reaches css p (header ++ '{' :: body))
    (hc : (opening.node p []).firstChar? = (header ++ '{' :: body).head?)
    (hes : eventsOf (stamp p (header ++ '{' :: body)) =
      .opens opening p :: eventsOf (stamp (p.after (header ++ ['{'])) body))
    (hs : readSheet body = .ok sheet) : StandsIn css (.unclosedBlock p)
  | unexpectedClose {p : Position} {t : Text} (h : Reaches css p ('}' :: t)) :
    StandsIn css (.unexpectedClose p)
  | missingSelector {p : Position} {t : Text} (h : GoesOn css p ('{' :: t)) :
    StandsIn css (.missingSelector p)
  | invalidDeclaration {text : Text} {p : Position} {c : Char} {t : Text}
    (h : GoesOn css p (c :: t)) (hc : text.head? = some c) :
    StandsIn css (.invalidDeclaration text p)
  | unterminatedString {p : Position} {c : Char} {t : Text} (h : GoesOn css p (c :: t))
    (hc : c = '"' ∨ c = '\'') (hq : quoted c (stamp (p.next c) t) = none) :
    StandsIn css (.unterminatedString p)
  | unterminatedComment {p : Position} {t : Text} (h : GoesOn css p ('/' :: '*' :: t))
    (hc : ¬ ['*', '/'] <:+: t) : StandsIn css (.unterminatedComment p)

theorem not_infix_of_comment (h : comment v = none) : ¬ ['*', '/'] <:+: v.map (·.1) := by
  fun_induction comment v with
  | case1 => simp
  | case2 => cases h
  | case3 c p s hs ih =>
    have hnone : comment s = none := by
      cases hc : comment s with
      | none => rfl
      | some r =>
        rw [hc] at h
        cases h
    rw [List.map_cons, List.infix_cons_iff, not_or]
    refine ⟨?_, ih hnone⟩
    intro hp
    obtain ⟨rfl, t, ht⟩ := List.cons_prefix_cons.1 hp
    cases s with
    | nil => cases ht
    | cons x s =>
      obtain ⟨d, q⟩ := x
      obtain rfl : '/' = d := (List.cons.inj ht).1
      exact hs q s rfl rfl

theorem standsIn_of_raisedAt (h : e.RaisedAt v) (hv : v <:+ stamp .first css) :
    e.StandsIn css := by
  cases e with
  | missingSelector p =>
    obtain ⟨s', rfl⟩ := h
    obtain ⟨t, -, ht⟩ := exists_goesOn_of_suffix hv
    exact .missingSelector ht
  | invalidDeclaration text p =>
    obtain ⟨c, s', rfl, -, hc⟩ := h
    obtain ⟨t, -, ht⟩ := exists_goesOn_of_suffix hv
    exact .invalidDeclaration ht hc
  | unterminatedComment p =>
    obtain ⟨q, s', rfl, hc⟩ := h
    obtain ⟨t, hs, ht⟩ := exists_goesOn_of_suffix hv
    cases t with
    | nil => cases hs
    | cons d t =>
      obtain ⟨hd, rfl⟩ := List.cons.inj hs
      obtain ⟨rfl, rfl⟩ := Prod.mk.inj hd
      have hno := not_infix_of_comment hc
      rw [map_fst_stamp] at hno
      exact .unterminatedComment ht hno
  | unterminatedString p =>
    obtain ⟨c, s', rfl, hc, hq⟩ := h
    obtain ⟨t, rfl, ht⟩ := exists_goesOn_of_suffix hv
    exact .unterminatedString ht hc hq
  | unclosedBlock | unexpectedClose => exact h.elim

theorem standsIn_of_refused (h : Refused es e) (hes : eventsOf (stamp .first css) = es) :
    e.StandsIn css := by
  cases h with
  | unclosed es opening p h =>
    obtain ⟨v, rest, hv, ⟨⟨c, v', rfl, -, -, hmakes⟩, hfirst, q, hbody⟩, rfl⟩ :=
      exists_standsAt_of_eventsOf hes
    obtain ⟨t, rfl, ht⟩ := exists_goesOn_of_suffix hv
    obtain ⟨header, body, hheader, rfl⟩ := exists_body_of_suffix (p := p) (t := c :: t) hbody
    obtain ⟨sheet, hs⟩ := exists_readSheet_of_stamp h
    have hfirst : eventsOf (stamp p (c :: t)) = _ := hfirst
    have hreach : Reaches css p (c :: t) := ⟨ht, es, hfirst ▸ hes⟩
    have hc : (opening.node p []).firstChar? = (c :: t).head? := (hmakes []).2
    rw [hheader] at hfirst hreach hc
    exact .unclosedBlock hreach hc hfirst hs
  | unopened es p es' =>
    obtain ⟨v, rest, hv, hst, rfl⟩ := exists_standsAt_of_eventsOf hes
    obtain rfl : v = ('}', p) :: rest := hst.takes
    obtain ⟨t, rfl, ht⟩ := exists_goesOn_of_suffix hv
    refine .unexpectedClose ⟨ht, es, ?_⟩
    rw [hes, stamp_cons, eventsOf_close]
  | fault es e es' =>
    obtain ⟨v, rest, hv, hst, -⟩ := exists_standsAt_of_eventsOf hes
    exact standsIn_of_raisedAt hst.takes hv

/-- The nodes of a sheet, parents in front of what is in their blocks, stand one behind the other in
its text, each where its first character is. A text that is no sheet is refused at the character
that is to blame. -/
theorem readSheet_positions (css : Text) :
    match readSheet css with
    | .ok sheet =>
      (nodesWithin sheet).Pairwise (fun m n => m.pos.Before n.pos) ∧
        ∀ n ∈ nodesWithin sheet, n.StandsIn css
    | .error e => e.StandsIn css := by
  split
  · rename_i sheet h
    exact ⟨pairwise_nodesWithin h, standsIn_of_nodesWithin h⟩
  · rename_i e h
    exact standsIn_of_refused (refused_of_readSheet h) rfl

end ComponentSheet
