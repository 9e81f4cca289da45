import ComponentSheet.Proofs.Sheet.Moved
import ComponentSheet.Proofs.Sheet.Places

/-! A text that ends with a node that is closed is read alike whatever follows it, and what follows
is read as it would be alone. -/
namespace ComponentSheet

open Event

variable {c : Char} {d : Nat} {p q : Position} {s : Stamped} {r : Prelude} {ev : Event}
  {e : ReadError} {a b : Text} {frames frames' : List Frame} {nodes nodes' x y : List Node}
  {es es' : List Event}

/-- Two characters that do not stand at the start of a text do not stand at that of a longer one. -/
theorem Stamped.append_start {e e' : Char} (hs : ∀ p s', s = (e', p) :: s' → c = e → False)
    (hne : c = e → s ≠ []) (t : Stamped) : ∀ p s', s ++ t = (e', p) :: s' → c = e → False := by
  intro p s' hst hc
  cases s with
  | nil => exact hne hc rfl
  | cons x s =>
    obtain ⟨rfl, -⟩ := List.cons.inj hst
    exact hs p s rfl hc

theorem dropWhile_append_of_ne {α : Type} {q : α → Bool} {s : List α} (h : s.dropWhile q ≠ [])
    (t : List α) : (s ++ t).dropWhile q = s.dropWhile q ++ t := by
  rw [List.dropWhile_append, if_neg (by simpa using h)]

theorem takeWhile_append_of_ne {α : Type} {q : α → Bool} {s : List α} (h : s.dropWhile q ≠ [])
    (t : List α) : (s ++ t).takeWhile q = s.takeWhile q := by
  have hsplit := congrArg List.length (List.takeWhile_append_dropWhile (p := q) (l := s))
  have hlength : 0 < (s.dropWhile q).length := List.length_pos_iff.2 h
  rw [List.length_append] at hsplit
  rw [List.takeWhile_append, if_neg (by omega)]

namespace Event

theorem comment_append {r : Text × Stamped} (h : comment s = some r) (t : Stamped) :
    comment (s ++ t) = some (r.1, r.2 ++ t) := by
  fun_induction comment s generalizing r with
  | case1 => cases h
  | case2 p p' s =>
    cases h
    rfl
  | case3 c p s hs ih =>
    obtain ⟨r', hr', rfl⟩ := Text.took_eq_some_iff.1 h
    rw [List.cons_append, comment, ih hr']
    · rfl
    · refine Stamped.append_start hs (fun _ hnil => ?_) t
      rw [hnil] at hr'
      cases hr'

theorem quoted_append {quote : Char} {r : Text × Stamped} (h : quoted quote s = some r)
    (hq : quote ≠ '\\') (t : Stamped) : quoted quote (s ++ t) = some (r.1, r.2 ++ t) := by
  fun_induction quoted quote s generalizing r with
  | case1 => cases h
  | case2 p c p' s ih =>
    obtain ⟨r', hr', rfl⟩ := Text.took_eq_some_iff.1 h
    obtain ⟨r'', hr'', rfl⟩ := Text.took_eq_some_iff.1 hr'
    rw [List.cons_append, List.cons_append, quoted, ih hr'']
    rfl
  | case3 p s hs =>
    cases h
    rw [List.cons_append, quoted_cons (fun hb => absurd hb hq), if_pos rfl]
  | case4 => cases h
  | case5 c p s hs hc hn ih =>
    obtain ⟨r', hr', rfl⟩ := Text.took_eq_some_iff.1 h
    have hb : c ≠ '\\' := by
      rintro rfl
      cases s with
      | nil => cases hr'
      | cons y s => exact hs y.1 y.2 s rfl rfl
    rw [List.cons_append, quoted_cons (fun h => absurd h hb), if_neg hc, if_neg hn, ih hr']
    rfl

/-- A prelude that ends in front of the end of the text ends there whatever follows. -/
theorem prelude_append (h : prelude d s = .ok r) (hr : r.ending ≠ .bare ∨ r.rest ≠ [])
    (t : Stamped) : prelude d (s ++ t) = .ok { r with rest := r.rest ++ t } := by
  fun_induction prelude d s generalizing r with
  | case1 d =>
    cases h
    simp at hr
  | case2 d p p' s text rest hc ih =>
    have hread : comment s = some (text, rest) := hc
    rw [List.cons_append, List.cons_append, prelude_comment, comment_append hread]
    exact ih h hr
  | case3 => cases h
  | case4 d c p s hs hquote text rest hq ih =>
    have hread : quoted c s = some (text, rest) := hq
    have hb : c ≠ '\\' := by rcases hquote with rfl | rfl <;> decide
    obtain ⟨r', hr', rfl⟩ := exists_of_map_eq_ok h
    rw [List.cons_append, prelude_cons (by rintro p' s' - rfl; simp at hquote), if_pos hquote,
      quoted_append hread hb]
    simp only [ih hr' hr]
    rfl
  | case5 => cases h
  | case6 d c p s hs hquote hc =>
    cases h
    rw [List.cons_append, prelude_cons (by rintro p' s' - rfl; simp at hc), if_neg hquote,
      if_pos hc]
  | case7 d c p s hs hquote hsemi hc =>
    cases h
    rw [List.cons_append, prelude_cons (by rintro p' s' - rfl; simp at hc), if_neg hquote,
      if_neg hsemi, if_pos hc]
  | case8 d c p s hs hquote hsemi hopen hc =>
    cases h
    rw [List.cons_append, prelude_cons (by rintro p' s' - rfl; simp at hc), if_neg hquote,
      if_neg hsemi, if_neg hopen, if_pos hc]
  | case9 d c p s hs hquote hsemi hopen hclose ih =>
    obtain ⟨r', hr', rfl⟩ := exists_of_map_eq_ok h
    have hne : s ≠ [] := by
      rintro rfl
      rw [prelude] at hr'
      cases hr'
      simp at hr
    rw [List.cons_append, prelude_cons (Stamped.append_start hs (fun _ => hne) t), if_neg hquote,
      if_neg hsemi, if_neg hopen, if_neg hclose, ih hr' hr]
    rfl

/-- A prelude that is read to the end of the text is not empty. -/
theorem trim_ne_nil_of_bare (hs : ∀ p s', s = ('*', p) :: s' → c = '/' → False)
    (hb : isBlank c = false) (hc : c ≠ '}') (h : prelude 0 ((c, p) :: s) = .ok r)
    (hr : r.ending = .bare) : r.text.trim ≠ [] := by
  rcases mem_or_mark_of_prelude hs hc h with hm | hm
  · exact Text.trim_ne_nil hm hb
  · rw [hr] at hm
    cases hm

end Event

/-- Nothing that follows a node becomes a part of it. -/
def Node.isClosed : Node → Bool
  | rule .. | block .. | comment .. => true
  | statement .. | declaration .. => false

def Event.isClosed : Event → Bool
  | opens .. | closes _ => true
  | node n => n.isClosed
  | fault _ => false

theorem Event.isClosed_ofAtRule {ending : Ending} (h : ending ≠ .brace) (name params : Text)
    (pos : Position) : (ofAtRule name params ending pos).isClosed = false := by
  rw [ofAtRule, if_neg h]
  rfl

theorem Event.exists_ofPrelude?_bare {t : Text} (h : t ≠ []) (pos : Position) :
    ∃ ev, ofPrelude? t .bare pos = some ev ∧ ev.isClosed = false := by
  obtain ⟨c, t, rfl⟩ := List.exists_cons_of_ne_nil h
  cases hx : Declaration.ofText? (c :: t) with
  | some x => exact ⟨.node (.declaration x pos), by simp only [ofPrelude?, hx], rfl⟩
  | none => exact ⟨.fault (.invalidDeclaration (c :: t) pos), by simp only [ofPrelude?, hx], rfl⟩

theorem prelude_slash (h : prelude 0 [('/', p)] = .ok r) : r.ending = .bare ∧ r.rest = [] := by
  have hnone : ∀ q s', ([] : Stamped) = ('*', q) :: s' → '/' = '/' → False := by simp
  rw [prelude_cons hnone] at h
  simp only [prelude, depthAfter, Except.map] at h
  cases h
  exact ⟨rfl, rfl⟩

/-- Where the last event of a text is closed, what follows the text adds the events that it has
alone. -/
theorem eventsOf_append (h : ∀ ev ∈ (eventsOf s).getLast?, ev.isClosed) (t : Stamped) :
    eventsOf (s ++ t) = eventsOf s ++ eventsOf t := by
  have hlast : ∀ {l es : List Event},
      (∀ x ∈ (l ++ es).getLast?, x.isClosed) → ∀ x ∈ es.getLast?, x.isClosed := by
    intro l es hes x hx
    refine hes x ?_
    rw [List.getLast?_append, hx]
    rfl
  fun_induction eventsOf s with
  | case1 => rfl
  | case2 p p' s text rest hc ih =>
    have hread : comment s = some (text, rest) := hc
    rw [List.cons_append, List.cons_append, eventsOf_comment, comment_append hread]
    simp only [ih (hlast (l := [_]) h), List.cons_append]
  | case3 p p' s hc => cases h _ rfl
  | case4 c p s hs hb ih => rw [List.cons_append, eventsOf_blank hb, ih h]
  | case5 p s hs hb ih =>
    rw [List.cons_append, eventsOf_close, ih (hlast (l := [_]) h), List.cons_append]
  | case6 p s r hr name hs hb hc ih =>
    have hend : r.ending ≠ .bare ∨ r.rest ≠ [] := by
      by_cases hbare : r.ending = .bare
      · right
        intro hnil
        rw [hbare, hnil, eventsOf_nil] at h
        have hclosed := h (ofAtRule name r.text.trim .bare p) rfl
        rw [isClosed_ofAtRule (by decide)] at hclosed
        cases hclosed
      · exact .inl hbare
    have hne : s.dropWhile (isWordChar ·.1) ≠ [] := by
      intro hnil
      rw [hnil, prelude] at hr
      cases hr
      simp at hend
    rw [List.cons_append, eventsOf_atRule, dropWhile_append_of_ne hne, takeWhile_append_of_ne hne,
      prelude_append hr hend]
    simp only [ih (hlast (l := [_]) h), List.cons_append]
    rfl
  | case7 p s e hr hs hb hc => cases h _ rfl
  | case8 c p s hs hb hc ha r hr ih =>
    have hend : r.ending ≠ .bare ∨ r.rest ≠ [] := by
      by_cases hbare : r.ending = .bare
      · right
        intro hnil
        have hne := trim_ne_nil_of_bare hs (by simpa using hb) hc hr hbare
        obtain ⟨ev, hev, hclosed⟩ := exists_ofPrelude?_bare hne p
        rw [hbare, hnil, eventsOf_nil, hev] at h
        rw [h ev rfl] at hclosed
        cases hclosed
      · exact .inl hbare
    have hne : c = '/' → s ≠ [] := by
      rintro rfl rfl
      obtain ⟨hbare, hrest⟩ := prelude_slash hr
      exact hend.elim (fun h => h hbare) (fun h => h hrest)
    have hread := prelude_append hr hend t
    rw [List.cons_append] at hread ⊢
    rw [eventsOf_prelude (by simpa using hb) hc ha, hread]
    · simp only [ih (hlast h), List.append_assoc]
    · exact Stamped.head_ne_of_start (Stamped.append_start hs hne t)
  | case9 c p s hs hb hc ha e hr => cases h _ rfl

/-- The open blocks and the nodes read so far, on top of other nodes at the level of the sheet. -/
inductive Atop (x : List Node) : List Frame → List Node → List Frame → List Node → Prop
  | bottom (nodes : List Node) : Atop x [] nodes [] (nodes ++ x)
  | frame {frames frames' : List Frame} {before before' : List Node}
    (h : Atop x frames before frames' before') (opening : Opening) (pos : Position)
    (nodes : List Node) :
    Atop x (⟨opening, pos, before⟩ :: frames) nodes (⟨opening, pos, before'⟩ :: frames') nodes

theorem Atop.cons (h : Atop x frames nodes frames' nodes') (n : Node) :
    Atop x frames (n :: nodes) frames' (n :: nodes') := by
  cases h with
  | bottom => exact .bottom _
  | frame h opening pos => exact .frame h opening pos _

/-- Nodes that the sheet has already stay in front of those that are added. -/
theorem nodesOfEvents_atop (h : Atop x frames nodes frames' nodes') (es : List Event) :
    nodesOfEvents frames' nodes' es = (nodesOfEvents frames nodes es).map (x.reverse ++ ·) := by
  fun_induction nodesOfEvents frames nodes es generalizing frames' nodes' with
  | case1 nodes =>
    cases h
    simp [nodesOfEvents, Except.map]
  | case2 f frames nodes =>
    cases h
    rfl
  | case3 frames nodes opening pos es ih =>
    rw [nodesOfEvents, ih (.frame h opening pos [])]
  | case4 nodes pos es =>
    cases h
    rfl
  | case5 f frames nodes pos es ih =>
    cases h with
    | frame h opening pos => rw [nodesOfEvents, ih (h.cons _)]
  | case6 frames nodes n es ih =>
    rw [nodesOfEvents, ih (h.cons n)]
  | case7 frames nodes e es =>
    rw [nodesOfEvents]
    rfl

/-- Where the events of a sheet have all been read, others go on with its nodes. -/
theorem nodesOfEvents_append (h : nodesOfEvents frames nodes es = .ok x) (es' : List Event) :
    nodesOfEvents frames nodes (es ++ es') = nodesOfEvents [] x.reverse es' := by
  fun_induction nodesOfEvents frames nodes es with
  | case1 nodes =>
    cases h
    rw [List.nil_append, List.reverse_reverse]
  | case2 => cases h
  | case3 frames nodes opening pos es ih =>
    rw [List.cons_append, nodesOfEvents, ih h]
  | case4 => cases h
  | case5 f frames nodes pos es ih =>
    rw [List.cons_append, nodesOfEvents, ih h]
  | case6 frames nodes n es ih =>
    rw [List.cons_append, nodesOfEvents, ih h]
  | case7 => cases h

/-- The last event of a sheet closes a block, or it is the last node. -/
theorem last_of_nodesOfEvents (h : nodesOfEvents frames nodes es = .ok x) :
    ∀ ev ∈ es.getLast?, (∃ pos, ev = .closes pos) ∨ ∃ n ∈ x.getLast?, ev = .node n := by
  fun_induction nodesOfEvents frames nodes es with
  | case1 => simp
  | case2 => cases h
  | case3 frames nodes opening pos es ih =>
    cases es with
    | nil => cases h
    | cons ev' es => exact ih h
  | case4 => cases h
  | case5 f frames nodes pos es ih =>
    cases es with
    | nil =>
      rintro ev ⟨⟩
      exact .inl ⟨pos, rfl⟩
    | cons ev' es => exact ih h
  | case6 frames nodes n es ih =>
    cases es with
    | nil =>
      rintro ev ⟨⟩
      cases frames with
      | cons f frames => cases h
      | nil =>
        cases h
        exact .inr ⟨n, by simp, rfl⟩
    | cons ev' es => exact ih h
  | case7 => cases h

theorem isClosed_of_nodesOfEvents (h : nodesOfEvents frames nodes es = .ok x)
    (hx : ∀ n ∈ x.getLast?, n.isClosed) : ∀ ev ∈ es.getLast?, ev.isClosed := by
  intro ev hev
  rcases last_of_nodesOfEvents h ev hev with ⟨pos, rfl⟩ | ⟨n, hn, rfl⟩
  · rfl
  · exact hx n hn

theorem Position.line_after (p : Position) (s : Text) :
    (p.after s).line = p.line + s.count '\n' := by
  induction s generalizing p with
  | nil => rfl
  | cons c s ih =>
    rw [after_cons, ih, List.count_cons]
    by_cases hc : c = '\n'
    · simp only [next, hc, if_true, beq_self_eq_true]
      omega
    · simp [next, hc]

/-- Behind a line break a text is at the start of a line. -/
theorem Position.after_lines (ha : a.getLast? = some '\n') :
    Position.first.after a = Position.first.lowered (a.count '\n') := by
  obtain ⟨s, rfl⟩ := List.getLast?_eq_some_iff.1 ha
  have hline := line_after Position.first (s ++ ['\n'])
  have hcolumn : (Position.first.after (s ++ ['\n'])).column = 1 := by
    rw [after_append]
    rfl
  generalize Position.first.after (s ++ ['\n']) = q at hline hcolumn
  cases q
  cases hline
  cases hcolumn
  rfl

/-- Behind a sheet that ends with a line break, its last node closed, another text is read as it is
alone, on lines that are that much further down. -/
theorem readSheet_append (ha : a.getLast? = some '\n') (hx : readSheet a = .ok x)
    (hl : ∀ n ∈ x.getLast?, n.isClosed) (b : Text) :
    readSheet (a ++ b) =
      match readSheet b with
      | .ok y => .ok (x ++ y.map (Node.moved (Position.lowered (a.count '\n'))))
      | .error e => .error (e.moved (Position.lowered (a.count '\n'))) := by
  have hclosed := isClosed_of_nodesOfEvents hx hl
  have hatop : Atop x.reverse [] [] [] x.reverse := .bottom []
  calc readSheet (a ++ b)
      = nodesOfEvents [] [] (eventsOf (stamp .first a) ++
          eventsOf (stamp (Position.first.lowered (a.count '\n')) b)) := by
        rw [readSheet, stamp_append, eventsOf_append hclosed, Position.after_lines ha]
    _ = nodesOfEvents [] x.reverse
          (eventsOf (stamp (Position.first.lowered (a.count '\n')) b)) :=
        nodesOfEvents_append hx _
    _ = (nodesOfEvents [] [] (eventsOf (stamp (Position.first.lowered (a.count '\n')) b))).map
          (x ++ ·) := by
        rw [nodesOfEvents_atop hatop, List.reverse_reverse]
    _ = _ := by
        rw [nodesOfEvents_lowered]
        cases readSheet b with
        | ok y => simp only [movedOutcome, Except.map, Node.movedAll_eq_map]
        | error e => rfl

theorem readSheet_append_media :
    let a := "@media (x: ';') \x7b\n .a[b=\"\x7d\"] \x7b c: d; \x7d /* ' */\n\x7d;\n".toList
    let x : List Node := [.block "media".toList "(x: ';')".toList [
      .rule ".a[b=\"\x7d\"]".toList [.declaration ⟨"c".toList, "d".toList, false⟩ ⟨2, 14⟩] ⟨2, 2⟩,
      .comment "'".toList ⟨2, 22⟩] ⟨1, 1⟩]
    let b := "* \x7b\n e: f; \x7d".toList
    let y : List Node :=
      [.rule "*".toList [.declaration ⟨"e".toList, "f".toList, false⟩ ⟨5, 2⟩] ⟨4, 1⟩]
    a.getLast? = some '\n' ∧ readSheet a = .ok x ∧ (∀ n ∈ x.getLast?, n.isClosed) ∧
      readSheet (a ++ b) = .ok (x ++ y) ∧
      readSheet (a ++ "\n \x7d".toList) = .error (.unexpectedClose ⟨5, 2⟩) := by
  intro a x b y
  have ha : a.getLast? = some '\n' := by decide
  have hx : readSheet a = .ok x := by decide +kernel
  have hl : ∀ n ∈ x.getLast?, n.isClosed := by
    rintro n ⟨⟩
    rfl
  have hb : readSheet b = .ok
      [.rule "*".toList [.declaration ⟨"e".toList, "f".toList, false⟩ ⟨2, 2⟩] ⟨1, 1⟩] := by
    decide +kernel
  have hclose : readSheet "\n \x7d".toList = .error (.unexpectedClose ⟨2, 2⟩) := by decide +kernel
  refine ⟨ha, hx, hl, ?_, ?_⟩
  · rw [readSheet_append ha hx hl b, hb]
    rfl
  · rw [readSheet_append ha hx hl, hclose]
    rfl

end ComponentSheet
