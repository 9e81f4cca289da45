import ComponentSheet.Proofs.Sheet.Events
import ComponentSheet.Sheet.Reading

/-! Reading never looks at positions: where all of them are moved, so are those of what is read, and
nothing else changes. -/
namespace ComponentSheet

open Event

variable {f : Position → Position} {p : Position} {n d : Nat} {s : Text}

mutual

/-- A node whose positions are moved, at any depth. -/
def Node.moved (f : Position → Position) : Node → Node
  | .rule selector children p => .rule selector (Node.movedAll f children) (f p)
  | .block name params children p => .block name params (Node.movedAll f children) (f p)
  | .statement name params p => .statement name params (f p)
  | .declaration x p => .declaration x (f p)
  | .comment text p => .comment text (f p)

def Node.movedAll (f : Position → Position) : List Node → List Node
  | [] => []
  | n :: l => n.moved f :: Node.movedAll f l

end

def ReadError.moved (f : Position → Position) : ReadError → ReadError
  | missingSelector p => missingSelector (f p)
  | unclosedBlock p => unclosedBlock (f p)
  | unexpectedClose p => unexpectedClose (f p)
  | invalidDeclaration text p => invalidDeclaration text (f p)
  | unterminatedComment p => unterminatedComment (f p)
  | unterminatedString p => unterminatedString (f p)

def Event.moved (f : Position → Position) : Event → Event
  | opens opening p => opens opening (f p)
  | closes p => closes (f p)
  | node n => node (n.moved f)
  | fault e => fault (e.moved f)

def Frame.moved (f : Position → Position) (frame : Frame) : Frame :=
  ⟨frame.opening, f frame.pos, Node.movedAll f frame.before⟩

def Stamped.moved (f : Position → Position) (s : Stamped) : Stamped :=
  s.map fun x => (x.1, f x.2)

/-- The outcome of reading a text with moved positions, of the outcome with those it had. -/
def movedOutcome {α : Type} (f : Position → Position) (g : α → α) :
    Except ReadError α → Except ReadError α
  | .ok a => .ok (g a)
  | .error e => .error (e.moved f)

theorem Node.movedAll_eq_map (f : Position → Position) (l : List Node) :
    movedAll f l = l.map (moved f) := by
  induction l with
  | nil => rfl
  | cons n l ih => rw [movedAll, ih, List.map_cons]

@[simp] theorem Node.movedAll_reverse (f : Position → Position) (l : List Node) :
    movedAll f l.reverse = (movedAll f l).reverse := by
  simp only [movedAll_eq_map, List.map_reverse]

@[simp] theorem Opening.moved_node (opening : Opening) (l : List Node) :
    (opening.node p l).moved f = opening.node (f p) (Node.movedAll f l) := by
  cases opening <;> rfl

namespace Stamped

@[simp] theorem moved_nil : moved f [] = [] := rfl

@[simp] theorem moved_cons (c : Char) (p : Position) (s : Stamped) :
    moved f ((c, p) :: s) = (c, f p) :: moved f s := rfl

theorem map_fst_moved (s : Stamped) : (moved f s).map (·.1) = s.map (·.1) := by
  simp [moved]

theorem head_moved {c : Char} {s : Stamped} (h : ∀ p s', s = (c, p) :: s' → False) :
    ∀ p s', moved f s = (c, p) :: s' → False := by
  intro p s' hs
  cases s with
  | nil => cases hs
  | cons x s =>
    obtain ⟨rfl, -⟩ : x.1 = c ∧ f x.2 = p := by simpa [moved] using (List.cons.inj hs).1
    exact h x.2 s rfl

theorem head_ne_of_start {c e e' : Char} {s : Stamped}
    (h : ∀ p s', s = (e', p) :: s' → c = e → False) (hc : c = e) :
    (s.map (·.1)).head? ≠ some e' := by
  intro hhead
  cases s with
  | nil => cases hhead
  | cons x s =>
    obtain rfl : x.1 = e' := by simpa using hhead
    exact h x.2 s rfl hc

theorem moved_dropWhile (q : Char → Bool) (s : Stamped) :
    (moved f s).dropWhile (q ·.1) = moved f (s.dropWhile (q ·.1)) := by
  simp only [moved, List.dropWhile_map, Function.comp_def]

theorem moved_takeWhile (q : Char → Bool) (s : Stamped) :
    ((moved f s).takeWhile (q ·.1)).map (·.1) = (s.takeWhile (q ·.1)).map (·.1) := by
  simp only [moved, List.takeWhile_map, List.map_map, Function.comp_def]

end Stamped

namespace Event

theorem comment_moved (s : Stamped) :
    comment (s.moved f) = (comment s).map fun r => (r.1, r.2.moved f) := by
  fun_induction comment s with
  | case1 => rfl
  | case2 => rfl
  | case3 c p s hs ih =>
    rw [Stamped.moved_cons, comment, ih]
    · cases comment s <;> rfl
    · rintro p' s' hm rfl
      exact Stamped.head_moved (fun p s' h => hs p s' h rfl) p' s' hm

/-- A character of a string that no backslash stands in front of. -/
theorem quoted_cons {c quote : Char} {s : Stamped} (h : c = '\\' → s = []) (p : Position) :
    quoted quote ((c, p) :: s) =
      if c = quote then some ([c], s) else if c = '\n' then none
      else Text.took c (quoted quote s) := by
  rw [quoted]
  rintro e p' s' hs rfl
  have hnil := h rfl
  rw [hs] at hnil
  cases hnil

theorem quoted_moved (quote : Char) (s : Stamped) :
    quoted quote (s.moved f) = (quoted quote s).map fun r => (r.1, r.2.moved f) := by
  have hnil : ∀ {c : Char} {s : Stamped}, (∀ e p s', s = (e, p) :: s' → c = '\\' → False) →
      c = '\\' → Stamped.moved f s = [] := by
    intro c s hs hc
    cases s with
    | nil => rfl
    | cons x s => exact (hs x.1 x.2 s rfl hc).elim
  fun_induction quoted quote s with
  | case1 => rfl
  | case2 p c p' s ih =>
    rw [Stamped.moved_cons, Stamped.moved_cons, quoted, ih]
    cases quoted quote s <;> rfl
  | case3 p s hs =>
    rw [Stamped.moved_cons, quoted_cons (hnil hs), if_pos rfl]
    rfl
  | case4 p s hs hq =>
    rw [Stamped.moved_cons, quoted_cons (hnil hs), if_neg hq, if_pos rfl]
    rfl
  | case5 c p s hs hq hn ih =>
    rw [Stamped.moved_cons, quoted_cons (hnil hs), if_neg hq, if_neg hn, ih]
    cases quoted quote s <;> rfl

theorem prelude_comment (d : Nat) (pos pos' : Position) (s : Stamped) :
    prelude d (('/', pos) :: ('*', pos') :: s) =
      match comment s with
      | some (_, rest) => prelude d rest
      | none => .error (.unterminatedComment pos) := by
  rw [prelude]
  split <;> simp_all

/-- A character of a prelude that opens no comment. -/
theorem prelude_cons {c : Char} {s : Stamped} (h : ∀ p s', s = ('*', p) :: s' → c = '/' → False)
    (d : Nat) (pos : Position) :
    prelude d ((c, pos) :: s) =
      if c = '"' ∨ c = '\'' then
        match quoted c s with
        | some (text, rest) =>
          (prelude d rest).map fun r => { r with text := c :: text ++ r.text }
        | none => .error (.unterminatedString pos)
      else if d = 0 ∧ c = ';' then .ok ⟨[], .semicolon, s⟩
      else if d = 0 ∧ c = '{' then .ok ⟨[], .brace, s⟩
      else if d = 0 ∧ c = '}' then .ok ⟨[], .bare, (c, pos) :: s⟩
      else (prelude (depthAfter c d) s).map fun r => { r with text := c :: r.text } := by
  rw [prelude]
  · split
    · split <;> simp_all
    · rfl
  · exact h

/-- A prelude whose positions are moved. -/
def Prelude.moved (f : Position → Position) (r : Prelude) : Prelude :=
  { r with rest := r.rest.moved f }

theorem prelude_moved (d : Nat) (s : Stamped) :
    prelude d (s.moved f) = movedOutcome f (Prelude.moved f) (prelude d s) := by
  have hstart : ∀ {c : Char} {s : Stamped}, (∀ p s', s = ('*', p) :: s' → c = '/' → False) →
      ∀ p s', s.moved f = ('*', p) :: s' → c = '/' → False := by
    intro c s hs p s' hm hc
    exact Stamped.head_moved (fun p s' h => hs p s' h hc) p s' hm
  fun_induction prelude d s with
  | case1 d =>
    rw [Stamped.moved_nil, prelude]
    rfl
  | case2 d p p' s text rest hc ih =>
    have hread : comment s = some (text, rest) := hc
    rw [Stamped.moved_cons, Stamped.moved_cons, prelude_comment, comment_moved, hread]
    exact ih
  | case3 d p p' s hc =>
    rw [Stamped.moved_cons, Stamped.moved_cons, prelude_comment, comment_moved, hc]
    rfl
  | case4 d c p s hs hquote text rest hq ih =>
    rw [Stamped.moved_cons, prelude_cons (hstart hs), if_pos hquote, quoted_moved, hq]
    simp only [Option.map_some, ih]
    cases prelude d rest <;> rfl
  | case5 d c p s hs hquote hq =>
    rw [Stamped.moved_cons, prelude_cons (hstart hs), if_pos hquote, quoted_moved, hq]
    rfl
  | case6 d c p s hs hquote hc =>
    rw [Stamped.moved_cons, prelude_cons (hstart hs), if_neg hquote, if_pos hc]
    rfl
  | case7 d c p s hs hquote hsemi hc =>
    rw [Stamped.moved_cons, prelude_cons (hstart hs), if_neg hquote, if_neg hsemi, if_pos hc]
    rfl
  | case8 d c p s hs hquote hsemi hopen hc =>
    rw [Stamped.moved_cons, prelude_cons (hstart hs), if_neg hquote, if_neg hsemi, if_neg hopen,
      if_pos hc]
    rfl
  | case9 d c p s hs hquote hsemi hopen hclose ih =>
    rw [Stamped.moved_cons, prelude_cons (hstart hs), if_neg hquote, if_neg hsemi, if_neg hopen,
      if_neg hclose, ih]
    cases prelude (depthAfter c d) s <;> rfl

theorem ofPrelude?_moved (t : Text) (ending : Ending) (p : Position) :
    ofPrelude? t ending (f p) = (ofPrelude? t ending p).map (Event.moved f) := by
  cases t with
  | nil => cases ending <;> rfl
  | cons c t =>
    cases ending with
    | brace => rfl
    | semicolon | bare =>
      simp only [ofPrelude?]
      cases Declaration.ofText? (c :: t) <;> rfl

theorem ofAtRule_moved (name params : Text) (ending : Ending) (p : Position) :
    ofAtRule name params ending (f p) = (ofAtRule name params ending p).moved f := by
  cases ending <;> rfl

end Event

theorem eventsOf_moved (s : Stamped) :
    eventsOf (s.moved f) = (eventsOf s).map (Event.moved f) := by
  have hstart : ∀ {c : Char} {s : Stamped}, (∀ p s', s = ('*', p) :: s' → c = '/' → False) →
      c = '/' → ((s.moved f).map (·.1)).head? ≠ some '*' := by
    intro c s hs hc
    rw [Stamped.map_fst_moved]
    exact Stamped.head_ne_of_start hs hc
  fun_induction eventsOf s with
  | case1 => simp
  | case2 p p' s text rest hc ih =>
    have hread : comment s = some (text, rest) := hc
    rw [Stamped.moved_cons, Stamped.moved_cons, eventsOf_comment, comment_moved, hread]
    simp only [Option.map_some, ih]
    rfl
  | case3 p p' s hc =>
    rw [Stamped.moved_cons, Stamped.moved_cons, eventsOf_comment, comment_moved, hc]
    rfl
  | case4 c p s hs hb ih =>
    rw [Stamped.moved_cons, eventsOf_blank hb, ih]
  | case5 p s hs hb ih =>
    rw [Stamped.moved_cons, eventsOf_close, ih]
    rfl
  | case6 p s r hr name hs hb hc ih =>
    rw [Stamped.moved_cons, eventsOf_atRule, Stamped.moved_dropWhile, prelude_moved, hr,
      Stamped.moved_takeWhile]
    simp only [movedOutcome, Prelude.moved, ih, ofAtRule_moved]
    rfl
  | case7 p s e hr hs hb hc =>
    rw [Stamped.moved_cons, eventsOf_atRule, Stamped.moved_dropWhile, prelude_moved, hr]
    rfl
  | case8 c p s hs hb hc ha r hr ih =>
    have hread := prelude_moved (f := f) 0 ((c, p) :: s)
    rw [Stamped.moved_cons, hr] at hread
    rw [Stamped.moved_cons, eventsOf_prelude (by simpa using hb) hc ha (hstart hs), hread]
    simp only [movedOutcome, Prelude.moved, ih, ofPrelude?_moved]
    cases ofPrelude? r.text.trim r.ending p <;> rfl
  | case9 c p s hs hb hc ha e hr =>
    have hread := prelude_moved (f := f) 0 ((c, p) :: s)
    rw [Stamped.moved_cons, hr] at hread
    rw [Stamped.moved_cons, eventsOf_prelude (by simpa using hb) hc ha (hstart hs), hread]
    rfl

theorem nodesOfEvents_moved (frames : List Frame) (nodes : List Node) (es : List Event) :
    nodesOfEvents (frames.map (Frame.moved f)) (Node.movedAll f nodes) (es.map (Event.moved f)) =
      movedOutcome f (Node.movedAll f) (nodesOfEvents frames nodes es) := by
  fun_induction nodesOfEvents frames nodes es with
  | case1 nodes => simp [nodesOfEvents, movedOutcome]
  | case2 frame frames nodes => rfl
  | case3 frames nodes opening p es ih =>
    rw [← ih, List.map_cons, Event.moved, nodesOfEvents]
    rfl
  | case4 nodes p es => rfl
  | case5 frame frames nodes p es ih =>
    rw [← ih, Node.movedAll, Opening.moved_node, Node.movedAll_reverse]
    rfl
  | case6 frames nodes n es ih =>
    rw [← ih, List.map_cons, Event.moved, nodesOfEvents, Node.movedAll]
  | case7 frames nodes e es =>
    rw [List.map_cons, Event.moved, nodesOfEvents]
    rfl

def Position.lowered (n : Nat) (p : Position) : Position :=
  ⟨p.line + n, p.column⟩

theorem Position.next_lowered (n : Nat) (p : Position) (c : Char) :
    (p.lowered n).next c = (p.next c).lowered n := by
  by_cases hc : c = '\n'
  · simp only [next, lowered, hc, if_true]
    rw [Nat.add_right_comm]
  · simp only [next, lowered, hc, if_false]

theorem stamp_lowered (n : Nat) (p : Position) (s : Text) :
    stamp (p.lowered n) s = (stamp p s).moved (Position.lowered n) := by
  induction s generalizing p with
  | nil => rfl
  | cons c s ih => rw [stamp_cons, stamp_cons, Position.next_lowered, ih, Stamped.moved_cons]

/-- A text that starts on a later line is read as it is at the start, with all lines further
down. -/
theorem nodesOfEvents_lowered (n : Nat) (s : Text) :
    nodesOfEvents [] [] (eventsOf (stamp (Position.first.lowered n) s)) =
      movedOutcome (Position.lowered n) (Node.movedAll (Position.lowered n)) (readSheet s) := by
  rw [stamp_lowered, eventsOf_moved]
  exact nodesOfEvents_moved [] [] _

end ComponentSheet
