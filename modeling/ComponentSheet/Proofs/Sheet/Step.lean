import ComponentSheet.Proofs.Sheet.Moved
import ComponentSheet.Proofs.Sheet.Read

/-! The first event of a text, where it stands and what is left of the text behind it. -/
namespace ComponentSheet

open Event

variable {c : Char} {s v rest : Stamped} {t : Text} {p : Position} {d : Nat} {r : Prelude}
  {e : ReadError} {ending : Ending} {ev : Event} {es' : List Event}

theorem suffix_of_comment {s : Stamped} {r : Text × Stamped} (h : comment s = some r) :
    r.2 <:+ s := by
  fun_induction comment s generalizing r with
  | case1 => cases h
  | case2 p p' s =>
    cases h
    exact ⟨[_, _], rfl⟩
  | case3 c p s _ ih =>
    obtain ⟨q, hq, rfl⟩ := Text.took_eq_some_iff.1 h
    exact (ih hq).trans (List.suffix_cons _ _)

theorem suffix_of_quoted {quote : Char} {s : Stamped} {r : Text × Stamped}
    (h : quoted quote s = some r) : r.2 <:+ s := by
  fun_induction quoted quote s generalizing r with
  | case1 => cases h
  | case2 _ c _ s ih =>
    obtain ⟨q, hq, rfl⟩ := Text.took_eq_some_iff.1 h
    obtain ⟨q', hq', rfl⟩ := Text.took_eq_some_iff.1 hq
    exact (ih hq').trans ⟨[_, _], rfl⟩
  | case3 =>
    cases h
    exact List.suffix_cons _ _
  | case4 => cases h
  | case5 c _ s _ _ _ ih =>
    obtain ⟨q, hq, rfl⟩ := Text.took_eq_some_iff.1 h
    exact (ih hq).trans (List.suffix_cons _ _)

/-- A prelude is read up to its mark, if it has one. -/
theorem exists_mark_of_prelude {s : Stamped} (h : prelude d s = .ok r) :
    ∃ m : Stamped, m.map (·.1) = r.ending.mark?.toList ∧ m ++ r.rest <:+ s := by
  fun_induction prelude d s generalizing r with
  | case1 =>
    cases h
    exact ⟨[], rfl, List.suffix_rfl⟩
  | case2 d _ _ s _ rest hc ih =>
    obtain ⟨m, hm, hs⟩ := ih h
    have hsub : rest <:+ s := suffix_of_comment hc
    exact ⟨m, hm, hs.trans (hsub.trans ⟨[_, _], rfl⟩)⟩
  | case3 => cases h
  | case4 d c p s _ _ text rest hq ih =>
    obtain ⟨r', hr', rfl⟩ := exists_of_map_eq_ok h
    obtain ⟨m, hm, hs⟩ := ih hr'
    have hsub : rest <:+ s := suffix_of_quoted hq
    exact ⟨m, hm, hs.trans (hsub.trans (List.suffix_cons _ _))⟩
  | case5 => cases h
  | case6 d c p s _ _ hc =>
    cases h
    exact ⟨[(c, p)], by simp [Ending.mark?, hc.2], List.suffix_rfl⟩
  | case7 d c p s _ _ _ hc =>
    cases h
    exact ⟨[(c, p)], by simp [Ending.mark?, hc.2], List.suffix_rfl⟩
  | case8 =>
    cases h
    exact ⟨[], rfl, List.suffix_rfl⟩
  | case9 d c p s _ _ _ _ _ ih =>
    obtain ⟨r', hr', rfl⟩ := exists_of_map_eq_ok h
    obtain ⟨m, hm, hs⟩ := ih hr'
    exact ⟨m, hm, hs.trans (List.suffix_cons _ _)⟩

theorem suffix_of_prelude (h : prelude d s = .ok r) : r.rest <:+ s := by
  obtain ⟨m, -, hs⟩ := exists_mark_of_prelude h
  exact (List.suffix_append m _).trans hs

theorem suffix_of_prelude_brace (h : prelude d s = .ok r) (hb : r.ending = .brace) :
    ∃ q, ('{', q) :: r.rest <:+ s := by
  obtain ⟨m, hm, hs⟩ := exists_mark_of_prelude h
  rw [hb] at hm
  obtain ⟨x, rfl, hx⟩ := List.map_eq_singleton_iff.1 hm
  obtain ⟨c, q⟩ := x
  cases hx
  exact ⟨q, hs⟩

/-- A prelude has its first character in its text, unless that is its mark. -/
theorem mem_or_mark_of_prelude (hs : ∀ p s', s = ('*', p) :: s' → c = '/' → False) (hc : c ≠ '}')
    (h : prelude 0 ((c, p) :: s) = .ok r) : c ∈ r.text ∨ r.ending.mark? = some c := by
  rw [prelude_cons hs] at h
  split at h
  · split at h
    · obtain ⟨r', -, rfl⟩ := exists_of_map_eq_ok h
      exact .inl List.mem_cons_self
    · cases h
  · split at h
    · rename_i hsemi
      cases h
      exact .inr (by rw [hsemi.2]; rfl)
    · split at h
      · rename_i hopen
        cases h
        exact .inr (by rw [hopen.2]; rfl)
      · rw [if_neg fun hclose => hc hclose.2] at h
        obtain ⟨r', -, rfl⟩ := exists_of_map_eq_ok h
        exact .inl List.mem_cons_self

theorem eq_error_of_map {α β ε : Type} {f : α → β} {x : Except ε α} {e : ε}
    (h : x.map f = .error e) : x = .error e := by
  cases x with
  | error => simpa [Except.map] using h
  | ok => cases h

/-- What stands at the position of a fault: a string or a comment that nothing ends, a brace with no
selector in front of it, or what should have been a declaration. -/
def ReadError.RaisedAt (s : Stamped) : ReadError → Prop
  | missingSelector p => ∃ s', s = ('{', p) :: s'
  | invalidDeclaration text p => ∃ c s', s = (c, p) :: s' ∧ c ≠ '\n' ∧ text.head? = some c
  | unterminatedComment p => ∃ q s', s = ('/', p) :: ('*', q) :: s' ∧ comment s' = none
  | unterminatedString p =>
    ∃ c s', s = (c, p) :: s' ∧ (c = '"' ∨ c = '\'') ∧ quoted c s' = none
  | unclosedBlock _ | unexpectedClose _ => False

theorem ReadError.RaisedAt.exists_cons (h : e.RaisedAt s) :
    ∃ c s', s = (c, e.pos) :: s' ∧ c ≠ '\n' := by
  cases e with
  | missingSelector p =>
    obtain ⟨s', rfl⟩ := h
    exact ⟨_, _, rfl, by decide⟩
  | invalidDeclaration text p =>
    obtain ⟨c, s', rfl, hc, -⟩ := h
    exact ⟨_, _, rfl, hc⟩
  | unterminatedComment p =>
    obtain ⟨q, s', rfl, -⟩ := h
    exact ⟨_, _, rfl, by decide⟩
  | unterminatedString p =>
    obtain ⟨c, s', rfl, hc, -⟩ := h
    exact ⟨_, _, rfl, by rcases hc with rfl | rfl <;> decide⟩
  | unclosedBlock p | unexpectedClose p => exact h.elim

/-- A prelude is refused where a string or a comment in it starts. -/
theorem exists_raisedAt_of_prelude {s : Stamped} (h : prelude d s = .error e) :
    ∃ v, v <:+ s ∧ e.RaisedAt v := by
  fun_induction prelude d s with
  | case1 => cases h
  | case2 d p p' s _ rest hc ih =>
    obtain ⟨v, hv, he⟩ := ih h
    have hsub : rest <:+ s := suffix_of_comment hc
    exact ⟨v, hv.trans (hsub.trans ⟨[_, _], rfl⟩), he⟩
  | case3 d p q s hc =>
    cases h
    exact ⟨_, List.suffix_rfl, q, s, rfl, hc⟩
  | case4 d c p s _ _ text rest hq ih =>
    obtain ⟨v, hv, he⟩ := ih (eq_error_of_map h)
    have hsub : rest <:+ s := suffix_of_quoted hq
    exact ⟨v, hv.trans (hsub.trans (List.suffix_cons _ _)), he⟩
  | case5 d c p s _ hquote hq =>
    cases h
    exact ⟨_, List.suffix_rfl, c, s, rfl, hquote, hq⟩
  | case6 => cases h
  | case7 => cases h
  | case8 => cases h
  | case9 d c p s _ _ _ _ _ ih =>
    obtain ⟨v, hv, he⟩ := ih (eq_error_of_map h)
    exact ⟨v, hv.trans (List.suffix_cons _ _), he⟩

/-- The character that a node starts with in a text. -/
def Node.firstChar? : Node → Option Char
  | rule selector _ _ => selector.head?
  | block .. | statement .. => some '@'
  | declaration x _ => x.property.head?
  | comment .. => some '/'

/-- What the text is at an event, given the text that is left behind the event. -/
def Event.Takes (v rest : Stamped) : Event → Prop
  | opens opening p =>
    eventsOf v = .opens opening p :: eventsOf rest ∧ ∃ q, ('{', q) :: rest <:+ v
  | closes p => v = ('}', p) :: rest
  | node n => eventsOf v = .node n :: eventsOf rest
  | fault e => e.RaisedAt v

/-- An event stands at the front of a text: its node, if it is one that starts there, starts with
the first character. -/
structure Event.StandsAt (v rest : Stamped) (ev : Event) : Prop where
  front : ∃ c v', v = (c, ev.pos) :: v' ∧ c ≠ '\n' ∧ rest <:+ v' ∧
    ev.Makes fun n => n.pos = ev.pos ∧ n.firstChar? = some c
  takes : ev.Takes v rest

theorem standsAt_fault (h : e.RaisedAt v) : (Event.fault e).StandsAt v [] := by
  obtain ⟨c, v', rfl, hc⟩ := h.exists_cons
  exact ⟨⟨c, v', rfl, hc, List.nil_suffix, trivial⟩, h⟩

theorem standsAt_ofAtRule {name params : Text} (hv : rest <:+ v)
    (hb : ending = .brace → ∃ q, ('{', q) :: rest <:+ v)
    (h : eventsOf (('@', p) :: v) = ofAtRule name params ending p :: eventsOf rest) :
    (ofAtRule name params ending p).StandsAt (('@', p) :: v) rest := by
  rw [ofAtRule] at h ⊢
  split at h
  · rename_i he
    obtain ⟨q, hq⟩ := hb he
    rw [if_pos he]
    exact ⟨⟨_, _, rfl, by decide, hv, fun _ => ⟨rfl, rfl⟩⟩, h, q, hq.trans (List.suffix_cons _ _)⟩
  · rename_i he
    rw [if_neg he]
    exact ⟨⟨_, _, rfl, by decide, hv, rfl, rfl, rfl⟩, h⟩

theorem standsAt_ofPrelude? (hp : ofPrelude? t ending p = some ev) (ht : t.trim = t)
    (hc : ∀ x ∈ t.head?, x = c) (hn : c ≠ '\n') (hm : t = [] → ending = .brace → c = '{')
    (hv : rest <:+ v) (hb : ending = .brace → ∃ q, ('{', q) :: rest <:+ (c, p) :: v)
    (h : eventsOf ((c, p) :: v) = ev :: eventsOf rest) : ev.StandsAt ((c, p) :: v) rest := by
  have hhead : t ≠ [] → t.head? = some c := by
    intro hne
    obtain ⟨x, t', rfl⟩ := List.exists_cons_of_ne_nil hne
    rw [← hc x rfl]
    rfl
  rw [ofPrelude?.eq_def] at hp
  split at hp
  · cases hp
    obtain rfl := hm rfl rfl
    exact ⟨⟨_, _, rfl, hn, hv, trivial⟩, _, rfl⟩
  · cases hp
  · rename_i hne
    cases hp
    exact ⟨⟨_, _, rfl, hn, hv, fun _ => ⟨rfl, hhead (by simpa using hne)⟩⟩, h, hb rfl⟩
  · split at hp
    · rename_i x hx
      cases hp
      refine ⟨⟨_, _, rfl, hn, hv, rfl, rfl, ?_⟩, h⟩
      rw [Node.firstChar?, Declaration.head_property hx ht]
      refine hhead ?_
      rintro rfl
      cases hx
    · rename_i hne _ _ _ _
      cases hp
      exact ⟨⟨_, _, rfl, hn, hv, trivial⟩, _, _, rfl, hn, hhead (by simpa using hne)⟩

/-- A text has no events, or the first of them stands somewhere in it and the others are those of
the text behind. -/
theorem eventsOf_cases (s : Stamped) :
    eventsOf s = [] ∨ ∃ ev v rest, v <:+ s ∧ ev.StandsAt v rest ∧
      eventsOf s = ev :: eventsOf rest := by
  fun_induction eventsOf s with
  | case1 => exact .inl rfl
  | case2 p q s text rest hc ih =>
    have hread : comment s = some (text, rest) := hc
    have hsub : rest <:+ s := suffix_of_comment hc
    have hevents : eventsOf (('/', p) :: ('*', q) :: s) =
        .node (.comment text.trim p) :: eventsOf rest := by
      rw [eventsOf_comment, hread]
    refine .inr ⟨.node (.comment text.trim p), _, rest, List.suffix_rfl,
      ⟨⟨_, _, rfl, by decide, ?_, rfl, rfl, rfl⟩, hevents⟩, rfl⟩
    exact hsub.trans (List.suffix_cons _ _)
  | case3 p q s hc =>
    have hraised : (ReadError.unterminatedComment p).RaisedAt (('/', p) :: ('*', q) :: s) :=
      ⟨q, s, rfl, hc⟩
    exact .inr ⟨_, _, [], List.suffix_rfl, standsAt_fault hraised, by rw [eventsOf_nil]⟩
  | case4 c p s hs hb ih =>
    -- A blank makes no event.
    refine ih.imp_right ?_
    rintro ⟨ev, v, rest, hv, h⟩
    exact ⟨ev, v, rest, hv.trans (List.suffix_cons _ _), h⟩
  | case5 p s hs hb ih =>
    exact .inr ⟨.closes p, _, s, List.suffix_rfl,
      ⟨⟨_, _, rfl, by decide, List.suffix_rfl, trivial⟩, rfl⟩, rfl⟩
  | case6 p s r hr name hs hb hc ih =>
    have hdrop : s.dropWhile (isWordChar ·.1) <:+ s := List.dropWhile_suffix _
    refine .inr ⟨_, _, r.rest, List.suffix_rfl, standsAt_ofAtRule
      ((suffix_of_prelude hr).trans hdrop) (fun hbrace => ?_) ?_, rfl⟩
    · obtain ⟨q, hq⟩ := suffix_of_prelude_brace hr hbrace
      exact ⟨q, hq.trans hdrop⟩
    · rw [eventsOf_atRule, hr]
  | case7 p s e hr hs hb hc =>
    obtain ⟨v, hv, he⟩ := exists_raisedAt_of_prelude hr
    refine .inr ⟨_, v, [], ?_, standsAt_fault he, by rw [eventsOf_nil]⟩
    exact hv.trans ((List.dropWhile_suffix _).trans (List.suffix_cons _ _))
  | case8 c p s hs hb hc ha r hr ih =>
    have hb : isBlank c = false := by simpa using hb
    have hevents : eventsOf ((c, p) :: s) = _ :=
      eventsOf_prelude hb hc ha (Stamped.head_ne_of_start hs)
    rw [hr] at hevents
    cases hev : ofPrelude? r.text.trim r.ending p with
    | none =>
      -- Nor does a semicolon with nothing in front of it.
      refine ih.imp_right ?_
      rintro ⟨ev, v, rest, hv, h⟩
      exact ⟨ev, v, rest, hv.trans (suffix_of_prelude hr), h⟩
    | some ev =>
      simp only [hev] at hevents
      have hhead : ∀ x ∈ r.text.trim.head?, x = c := fun x hx => head_trim_prelude hs hb hr hx
      have hline : c ≠ '\n' := by
        rintro rfl
        exact absurd hb (by decide)
      have hmark : r.text.trim = [] → r.ending = .brace → c = '{' := by
        intro ht hbrace
        rcases mem_or_mark_of_prelude hs hc hr with hm | hm
        · exact absurd ht (Text.trim_ne_nil hm hb)
        · rw [hbrace] at hm
          exact (Option.some.inj hm).symm
      have hrest : r.rest <:+ s := by
        refine (List.suffix_cons_iff.1 (suffix_of_prelude hr)).resolve_left fun heq => ?_
        have hlength := length_prelude_lt hr hc
        rw [heq, List.length_cons] at hlength
        omega
      exact .inr ⟨ev, _, r.rest, List.suffix_rfl, standsAt_ofPrelude? hev (Text.trim_trim _) hhead
        hline hmark hrest (suffix_of_prelude_brace hr) hevents, rfl⟩
  | case9 c p s hs hb hc ha e hr =>
    obtain ⟨v, hv, he⟩ := exists_raisedAt_of_prelude hr
    exact .inr ⟨_, v, [], hv, standsAt_fault he, by rw [eventsOf_nil]⟩

theorem Event.StandsAt.length_lt (h : ev.StandsAt v rest) (hv : v <:+ s) :
    rest.length < s.length := by
  obtain ⟨c, v', rfl, -, hr, -⟩ := h.front
  exact Nat.lt_of_lt_of_le (Nat.lt_succ_of_le hr.length_le) hv.length_le

/-- Each event stands somewhere in the text, and the events behind it are those of what is left. -/
theorem exists_standsAt_of_eventsOf {s : Stamped} {es : List Event}
    (h : eventsOf s = es ++ ev :: es') :
    ∃ v rest, v <:+ s ∧ ev.StandsAt v rest ∧ eventsOf rest = es' := by
  rcases eventsOf_cases s with hs | ⟨ev', v, rest, hv, hst, hs⟩
  · simp [hs] at h
  · rw [hs] at h
    cases es with
    | nil =>
      obtain ⟨rfl, hes⟩ := List.cons.inj h
      exact ⟨v, rest, hv, hst, hes⟩
    | cons x es =>
      have hlt := hst.length_lt hv
      obtain ⟨w, rest', hw, hst', hes⟩ := exists_standsAt_of_eventsOf (List.cons.inj h).2
      obtain ⟨c, v', rfl, -, hr, -⟩ := hst.front
      exact ⟨w, rest', hw.trans (hr.trans ((List.suffix_cons _ _).trans hv)), hst', hes⟩
termination_by s.length

end ComponentSheet
