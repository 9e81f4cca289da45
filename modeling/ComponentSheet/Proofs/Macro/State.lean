import ComponentSheet.Component.Hoisting
import ComponentSheet.Proofs.Macro.CallFree
import ComponentSheet.Proofs.Macro.Called
import ComponentSheet.Proofs.Selector.Listed
import ComponentSheet.Proofs.Selector.Renamed

/-! A selector that is one call of a state, and what it is expanded to. -/
namespace ComponentSheet.Macro

open Selector Reading

variable {kinds : List Kind} {n p s t w : Text} {c x : Char} {k : Kind}

/-- The selector is a call of a state and nothing else, blanks apart. Its parameter is the name `n`,
blanks apart. -/
structure CallsState (n s : Text) : Prop where
  ne_nil : n ≠ []
  isName : EndsName n []
  exists_call : ∃ p, p.trim = n ∧ segments s.trim = [.token (callToken .state p)]

theorem closed_of_unescaped (h : Unescaped n) : Closed n := by
  rw [Closed]
  induction n with
  | nil => rfl
  | cons c n ih =>
    rw [Unescaped, List.forall_mem_cons] at h
    have hmark : ∀ x ∈ ['"', '\'', '(', ')'], c ≠ x := by
      rintro x hx rfl
      revert hx h
      simp only [List.mem_cons, List.not_mem_nil, or_false]
      rintro ⟨⟨hc, -⟩, -⟩ (rfl | rfl | rfl | rfl) <;> revert hc <;> decide
    have hstep : Level.ground.step c = some .ground := by
      simp [Level.step, Level.ground, hmark]
    rw [Level.through_cons, hstep]
    exact ih h.2

/-- Around a name without escapes that no blanks surround, the call is always read. -/
theorem callsState_of_unescaped (hne : n ≠ []) (hn : Unescaped n) (ht : n.trim = n) :
    CallsState n ("state(".toList ++ n ++ [')']) := by
  have hformed : (callToken .state n).Formed :=
    ⟨startsName_name .state, by decide, closed_of_unescaped hn⟩
  have htext : "state(".toList ++ n ++ [')'] = (Segment.token (callToken .state n)).text := rfl
  have htrim : Text.trim ("state(".toList ++ n ++ [')']) = "state(".toList ++ n ++ [')'] := by
    rw [Text.trim_eq_self_iff]
    refine ⟨?_, ?_⟩
    · rintro c ⟨⟩
      decide
    · rw [List.getLast?_concat]
      rintro c ⟨⟩
      decide
  refine ⟨hne, ?_, n, ht, ?_⟩
  · have h := endsName_append hn (w := []) (v := []) rfl
    rwa [List.append_nil] at h
  · have hreads : (Segment.token (callToken .state n)).Reads false [] :=
      reads_token hformed trivial nofun
    have hsegments := segmentsFrom_of_reads hreads
    rw [List.append_nil, ← htext] at hsegments
    rw [htrim, segments, hsegments, segmentsFrom]

/-- Before the parenthesis of a call is the last letter of a kind. -/
theorem callFree_of_not_infix (h : ∀ x ∈ ['t', 'e'], ¬ [x, '('] <:+: s) : CallFree kinds s := by
  intro q hq
  obtain ⟨pre, post, hsplit⟩ := List.append_of_mem hq
  have hs : s = textOf pre ++ (q.text ++ textOf post) := by
    rw [← textOf_shown kinds s, hsplit, textOf_append, textOf_cons]
  have hname : ∀ (k : Kind) (v : Text), q.text ≠ k.name ++ '(' :: v := by
    intro k v hv
    obtain ⟨u, hu | hu⟩ := exists_name_eq k
    · refine h 't' (by simp) ⟨textOf pre ++ (u ++ ['n']), v ++ textOf post, ?_⟩
      rw [hs, hv, hu]
      simp
    · refine h 'e' (by simp) ⟨textOf pre ++ (u ++ ['t']), v ++ textOf post, ?_⟩
      rw [hs, hv, hu]
      simp
  cases q with
  | plain => rfl
  | call k p => exact absurd (by simp [Part.text]) (hname k (p ++ [')']))
  | openCall k rest => exact absurd rfl (hname k rest)

/-- A parenthesis in a name stands behind a backslash. -/
theorem not_infix_of_endsName (h : EndsName n []) (hx : x ≠ '\\') : ¬ [x, '('] <:+: n := by
  have hhead : ∀ {m : Text}, EndsName m [] → ¬ ['('] <+: m := by
    rintro _ hm ⟨m, rfl⟩
    exact absurd (isNameChar_of_endsName hm) (by decide)
  induction n using escape_induction with
  | nil => simp
  | last =>
    intro hi
    have hlength := hi.length_le
    simp at hlength
  | escaped c n ih =>
    have hn := endsName_escaped.1 h
    rw [List.infix_cons_iff, List.infix_cons_iff, not_or, not_or]
    refine ⟨fun hp => hx (List.cons_prefix_cons.1 hp).1, fun hp => ?_, ih hn⟩
    exact hhead hn (List.cons_prefix_cons.1 hp).2
  | plain c n hc ih =>
    have hn := ((endsName_cons hc).1 h).2
    rw [List.infix_cons_iff, not_or]
    exact ⟨fun hp => hhead hn (List.cons_prefix_cons.1 hp).2, ih hn⟩

/-- Around a text a bracket makes no parenthesis of a call, if it opens the text or ends it. -/
theorem not_infix_cons (h : ¬ [x, '('] <:+: s) (hc : c ≠ x) : ¬ [x, '('] <:+: c :: s := by
  rw [List.infix_cons_iff, not_or]
  exact ⟨fun hp => hc (List.cons_prefix_cons.1 hp).1.symm, h⟩

theorem not_infix_concat (h : ¬ [x, '('] <:+: s) (hc : c ≠ '(') : ¬ [x, '('] <:+: s ++ [c] := by
  rw [List.infix_concat_iff, not_or]
  refine ⟨?_, h⟩
  rintro ⟨t, ht⟩
  have hlast := congrArg List.getLast? ht
  rw [List.getLast?_concat, List.getLast?_append] at hlast
  exact hc (Option.some.inj hlast).symm

/-- The condition of a state, under a host or not, has no call in it. -/
theorem callFree_condition (h : EndsName n []) :
    CallFree kinds ('&' :: '[' :: n ++ [']']) ∧
      CallFree kinds ('&' :: '(' :: '[' :: n ++ [']', ')']) := by
  have hn : ∀ x ∈ ['t', 'e'], ¬ [x, '('] <:+: '[' :: n ++ [']'] := by
    intro x hx
    have hletter : x ≠ '\\' ∧ '[' ≠ x := by
      rcases hx with _ | ⟨_, _ | ⟨_, ⟨⟩⟩⟩ <;> decide
    exact not_infix_concat (not_infix_cons (not_infix_of_endsName h hletter.1) hletter.2)
      (by decide)
  have hmark : ∀ x ∈ ['t', 'e'], '&' ≠ x ∧ '(' ≠ x := by simp
  constructor
  · exact callFree_of_not_infix fun x hx => not_infix_cons (hn x hx) (hmark x hx).1
  · apply callFree_of_not_infix
    intro x hx
    have hwrapped := not_infix_concat (c := ')') (not_infix_cons (hn x hx) (hmark x hx).2)
      (by decide)
    have hall := not_infix_cons hwrapped (hmark x hx).1
    simpa using hall

theorem of_segments_singleton {g : Segment} (h : segments s = [g]) : s = g.text ∧ g.Formed := by
  have hs := textOf_segments s
  rw [h] at hs
  refine ⟨by simpa [Selector.textOf] using hs.symm, ?_⟩
  cases s with
  | nil =>
    rw [segments, segmentsFrom] at h
    cases h
  | cons c s =>
    rw [segments, segmentsFrom] at h
    have hg := (List.cons.inj h).1
    exact hg ▸ (segment_formed false c s).1

/-- A call is the first one of the text that it makes up. -/
theorem findCall_of_segments (h : segments s = [.token (callToken k p)]) (hk : k ∈ kinds)
    (hp : p.trim ≠ []) : findCall kinds s = .ok (some ⟨[], k, p, []⟩) := by
  obtain ⟨hs, hf⟩ := of_segments_singleton h
  have hcall : callPart? kinds (.token (callToken k p)) = some (.call k p) := by
    simp [callPart?, callToken, kindAmong?_name, hk]
  have hshown : shown kinds s = [.call k p] := by
    rw [hs, ← List.append_nil (Segment.text _), shown_segment hf trivial, shownIn, hcall, shown_nil]
    rfl
  rw [findCall_eq, hshown, firstCall, if_neg hp]
  rfl

/-- The selector that a state stands for. -/
def stateSelector (parent : Option Text) (n : Text) : Text :=
  if parent.any (·.trim = ":host".toList) then "&([".toList ++ n ++ "])".toList
  else "&[".toList ++ n ++ "]".toList

theorem state_eq (ctx : Context) (hn : EndsName n []) (hne : n ≠ []) :
    Dialect.webComponent.state ctx n = stateSelector ctx.parent n := by
  have hcolon : [':'].isPrefixOf n = false := by
    obtain ⟨c, n, rfl⟩ := List.exists_cons_of_ne_nil hne
    have hc : ':' ≠ c := by
      rintro rfl
      exact absurd (isNameChar_of_endsName hn) (by decide)
    simp [List.isPrefixOf, hc]
  simp [Dialect.state, stateSelector, hcolon, Context.underHost]

theorem callFree_stateSelector (hn : EndsName n []) (parent : Option Text) :
    CallFree kinds (stateSelector parent n) := by
  rw [stateSelector]
  split
  · simpa using (callFree_condition hn).2
  · simpa using (callFree_condition hn).1

/-- The first pass replaces the call, and there is nothing to do in the other one. -/
theorem expand_state (ctx : Context) (hn : EndsName n []) (hne : n ≠ []) (hp : p.trim = n)
    (h : segments s = [.token (callToken .state p)]) :
    expand .webComponent ctx s = .ok (stateSelector ctx.parent n) := by
  have hfind : findCall [.component, .attr, .variant, .state] s = .ok (some ⟨[], .state, p, []⟩) :=
    findCall_of_segments h (by decide) (hp ▸ hne)
  have hresolve : Dialect.webComponent.resolve ctx .state p = .ok (stateSelector ctx.parent n) := by
    rw [Dialect.resolve, hp, if_neg hne, ← state_eq ctx hn hne]
  have hfree (kinds : List Kind) : findCall kinds (stateSelector ctx.parent n) = .ok none :=
    callFree_iff.1 (callFree_stateSelector hn ctx.parent)
  have hreplaced : Call.replacedBy ⟨[], .state, p, []⟩ (stateSelector ctx.parent n) =
      stateSelector ctx.parent n := by simp [Call.replacedBy]
  have hfirst : Step .webComponent ctx ⟨Dialect.webComponent.passes, s⟩ _ ⟨_, _⟩ :=
    .substitute hfind hresolve
  rw [hreplaced] at hfirst
  refine expand_eq_of_run (.head hfirst (.head (.advance (hfree _)) (.head (.advance (hfree _))
    (.refl _)))) (.done _) ?_
  have hparen : 0 < s.count '(' := by
    rw [List.count_pos_iff, (of_segments_singleton h).1]
    simp [Segment.text, callToken, Token.applied]
  have hbudget := count_lt_budgetFor ctx s
  simp only [List.length_append, List.length_cons, List.length_nil]
  omega

theorem pieces_blanks (b : Bool) (hw : w.all isBlank) : pieces (segmentsFrom b w) = [w] := by
  cases w with
  | nil =>
    rw [segmentsFrom]
    rfl
  | cons c w =>
    rw [List.all_cons, Bool.and_eq_true] at hw
    have htake : w.takeWhile isBlank = w := by
      have h : (w ++ []).takeWhile isBlank = w ++ [].takeWhile isBlank :=
        List.takeWhile_append_of_pos (List.all_eq_true.1 hw.2)
      simpa using h
    have hdrop : w.dropWhile isBlank = [] := by
      have h : (w ++ []).dropWhile isBlank = [].dropWhile isBlank :=
        List.dropWhile_append_of_pos (List.all_eq_true.1 hw.2)
      simpa using h
    have hsegment : segment b c w = (.blanks (c :: w), []) := by
      rw [segment_blank b hw.1, hdrop, htake]
      simp [startsCompound]
    rw [segmentsFrom, hsegment, segmentsFrom]
    simp [pieces, Segment.text]

theorem entries_of_callsState (h : CallsState n s) : entries s = [s.trim] := by
  obtain ⟨p, hp, hsegments⟩ := h.exists_call
  obtain ⟨u, v, hs, hu, hv⟩ := Text.exists_eq_trim s
  obtain ⟨htext, -⟩ := of_segments_singleton hsegments
  have hlast : ∀ g ∈ (segmentsFrom false s.trim).getLast?, g.Closes v := by
    intro g hg
    rw [← segments, hsegments] at hg
    cases hg
    exact ⟨rfl, trivial⟩
  have happend := segmentsFrom_append false s.trim hlast
  rw [← segments, ← segments, hsegments] at happend
  have hpieces : pieces (segments (s.trim ++ v)) = [s.trim ++ v] := by
    have hcomma : Segment.token (callToken .state p) ≠ .token .comma := by
      intro h
      cases h
    rw [happend, List.singleton_append, pieces_cons hcomma (pieces_blanks _ hv), ← htext]
  have hne : s.trim ≠ [] := by
    rw [htext]
    simp [Segment.text, callToken, Token.applied]
  calc entries s = entries (u ++ (s.trim ++ v)) := by rw [← List.append_assoc, ← hs]
    _ = entries (s.trim ++ v) := entries_blanks hu _
    _ = [s.trim] := by
        rw [entries, hpieces, List.map_singleton, Text.trim_append_right hv, Text.trim_trim]
        simp [hne]

theorem containsCall_of_callsState (h : CallsState n s) : containsCall s := by
  obtain ⟨p, hp, hs⟩ := h.exists_call
  apply Decidable.byContradiction
  intro hn
  have hfree := containsCall_iff.1 (by simpa using hn)
  have hcall : (Kind.state, some p) ∈ calls Kind.all s.trim := by
    rw [calls_eq_flatMap Kind.all false, ← segments, hs]
    simp [callsIn, shownIn_callToken, Part.called?]
  rw [calls_trim, calls_eq, List.mem_filterMap] at hcall
  obtain ⟨q, hq, hcalled⟩ := hcall
  have hplain := hfree q hq
  cases q with
  | plain => cases hcalled
  | call | openCall => cases hplain

theorem expandedSelector_of_callsState (ctx : Context) (h : CallsState n s) :
    Component.expandedSelector .webComponent ctx s = .ok (stateSelector ctx.parent n) := by
  obtain ⟨p, hp, hs⟩ := h.exists_call
  rw [Component.expandedSelector, if_pos (containsCall_of_callsState h), entries_of_callsState h,
    List.mapM_cons, expand_state ctx h.isName h.ne_nil hp hs]
  simp [ofEntries, Text.join, Except.map, bind, Except.bind, pure, Except.pure]

end ComponentSheet.Macro
