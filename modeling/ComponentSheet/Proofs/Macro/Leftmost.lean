import ComponentSheet.Proofs.Macro.Run
import ComponentSheet.Proofs.Macro.Splice
import ComponentSheet.Proofs.Selector.Lossless
import ComponentSheet.Proofs.Text.Trimmed

/-! The first call that is found stands in front of all others, also of those in the arguments of
tokens. With more kinds to look for it is found no later. -/
namespace ComponentSheet.Macro

open Selector

variable {kinds kinds' : List Kind} {k : Kind} {n s : Text} {t : Token} {i : Nat} {q : Part}
  {pre post l m : List Part} {p : Placed} {c : Call}

/-- The kind of the call that a token is, if it is one of `kinds`. -/
def callKind? (kinds : List Kind) : Token → Option Kind
  | .function name _ | .openFunction name _ => kindAmong? kinds name
  | _ => none

/-- A token stands at the byte `i` of the text, by itself or in the arguments of others at any
depth. The arguments of calls of `kinds` have no tokens. -/
inductive TokenAt (kinds : List Kind) : Text → Nat → Token → Prop
  | here {s : Text} {p : Placed} (hp : p ∈ placed s) : TokenAt kinds s p.start p.token
  | inside {s a : Text} {p : Placed} {r : Nat × Nat} {i : Nat} {t : Token} (hp : p ∈ placed s)
      (hk : callKind? kinds p.token = none) (hr : p.argumentRange? = some r)
      (ha : s.Slice r.1 r.2 a) (h : TokenAt kinds a i t) : TokenAt kinds s (r.1 + i) t

theorem isSome_callPart? (kinds : List Kind) (t : Token) :
    (callPart? kinds (.token t)).isSome = (callKind? kinds t).isSome := by
  cases t <;> simp [callPart?, callKind?]

theorem callPart?_eq_none_iff : callPart? kinds (.token t) = none ↔ callKind? kinds t = none := by
  cases t <;> simp [callPart?, callKind?]

theorem kindAmong?_mono (hsub : kinds ⊆ kinds') (h : kindAmong? kinds n = some k) :
    kindAmong? kinds' n = some k := by
  rw [kindAmong?, Option.filter_eq_some_iff] at h ⊢
  exact ⟨h.1, by simpa using hsub (by simpa using h.2)⟩

/-- What a token shows stands in the text at the start of the token. -/
theorem exists_shown_of_placed (kinds : List Kind) (hp : p ∈ placed s) :
    ∃ pre post, shown kinds s = pre ++ (shownIn kinds (.token p.token) ++ post) ∧
      (textOf pre).byteLength = p.start := by
  obtain ⟨ps, qs, hs⟩ := List.append_of_mem hp
  obtain ⟨l, m, hl, -, hi, -⟩ := exists_of_placedFrom hs
  refine ⟨l.flatMap (shownIn kinds), m.flatMap (shownIn kinds), ?_, ?_⟩
  · rw [shown_eq_flatMap kinds false, ← segments, hl, List.flatMap_append, List.flatMap_cons]
  · rw [textOf_flatMap_shownIn, hi, Nat.zero_add]

/-- All calls among the tokens are shown. -/
theorem TokenAt.exists_shown (h : TokenAt kinds s i t) (hq : callPart? kinds (.token t) = some q) :
    ∃ pre post, shown kinds s = pre ++ q :: post ∧ (textOf pre).byteLength = i := by
  induction h with
  | here hp =>
    obtain ⟨pre, post, hs, hi⟩ := exists_shown_of_placed kinds hp
    rw [shownIn, hq] at hs
    exact ⟨pre, post, hs, hi⟩
  | inside hp hk hr ha _ ih =>
    obtain ⟨pre, post, hs, hi⟩ := exists_shown_of_placed kinds hp
    obtain ⟨o, a, harg, hstart, -, -, hslice, -⟩ := slice_arguments hp hr
    obtain rfl := hslice.unique ha
    obtain ⟨pre', post', hs', hi'⟩ := ih hq
    rw [shownIn_arguments harg (callPart?_eq_none_iff.2 hk), hs'] at hs
    refine ⟨pre ++ (letters o ++ pre'), post' ++ (letters [')'] ++ post), by simp [hs], ?_⟩
    rw [textOf_append, textOf_append, textOf_letters, Text.byteLength_append,
      Text.byteLength_append]
    omega

/-- All calls that are shown are among the tokens. -/
theorem exists_tokenAt (h : shown kinds s = pre ++ q :: post) (hq : q.isCall) :
    ∃ t, TokenAt kinds s (textOf pre).byteLength t ∧ callPart? kinds (.token t) = some q := by
  -- Arguments are shorter than the text they stand in.
  generalize hn : s.length = n
  induction n using Nat.strongRecOn generalizing s pre post with
  | ind n ih =>
    rw [shown_eq_flatMap kinds false] at h
    obtain ⟨l, g, m, y, z, hl, hg, rfl, -⟩ := split_flatMap h
    rw [textOf_append, textOf_flatMap_shownIn, Text.byteLength_append]
    cases g with
    | blanks w =>
      rcases cases_of_shownIn hg hq with ⟨-, -, hc⟩ | ⟨-, o, a, pre', post', ha, -⟩
      · cases hc
      · cases ha
    | token t =>
      obtain ⟨p, hp, rfl, hstart⟩ := exists_mem_placed hl
      rw [← hstart]
      rcases cases_of_shownIn hg hq with ⟨rfl, -, hc⟩ | ⟨hc, o, a, pre', post', ha, rfl, -, hs⟩
      · exact ⟨p.token, .here hp, hc⟩
      · have hr : p.argumentRange? =
            some (p.start + o.byteLength, p.start + o.byteLength + a.byteLength) :=
          congrArg (Option.map _) ha
        obtain ⟨o', a', ha', -, hfirst, -, hslice, -⟩ := slice_arguments hp hr
        cases ha.symm.trans ha'
        obtain ⟨t, ht, hc'⟩ := ih a.length (hn ▸ hslice.length_lt (by omega)) hs rfl
        refine ⟨t, ?_, hc'⟩
        rw [textOf_append, textOf_letters, Text.byteLength_append, ← Nat.add_assoc]
        exact .inside hp (callPart?_eq_none_iff.1 hc) hr hslice ht

theorem callKind?_mono (hsub : kinds ⊆ kinds') (h : callKind? kinds t = some k) :
    callKind? kinds' t = some k := by
  revert h
  fun_cases callKind? kinds t
  · exact kindAmong?_mono hsub
  · exact kindAmong?_mono hsub
  · nofun

/-- With more kinds there is the same call, or one that it stands in. -/
theorem TokenAt.exists_le (h : TokenAt kinds s i t) (hsub : kinds ⊆ kinds')
    (hk : (callKind? kinds t).isSome) :
    ∃ j t', TokenAt kinds' s j t' ∧ (callKind? kinds' t').isSome ∧ j ≤ i := by
  induction h with
  | here hp =>
    obtain ⟨k, hk⟩ := Option.isSome_iff_exists.1 hk
    exact ⟨_, _, .here hp, by rw [callKind?_mono hsub hk]; rfl, Nat.le_refl _⟩
  | @inside s a p r i t hp _ hr ha _ ih =>
    obtain ⟨j, t', ht, hk', hle⟩ := ih hk
    cases hp' : callKind? kinds' p.token with
    | none => exact ⟨r.1 + j, t', .inside hp hp' hr ha ht, hk', Nat.add_le_add_left hle _⟩
    | some k =>
      obtain ⟨-, -, -, -, hstart, -⟩ := slice_arguments hp hr
      exact ⟨p.start, p.token, .here hp, by rw [hp']; rfl, by omega⟩

/-- Parts without calls end in front of any call. -/
theorem byteLength_le_of_first (h : pre ++ m = l ++ q :: post) (hpre : ∀ p ∈ pre, p.isCall = false)
    (hq : q.isCall) : (textOf pre).byteLength ≤ (textOf l).byteLength := by
  rcases List.append_eq_append_iff.1 h with ⟨x, rfl, -⟩ | ⟨x, rfl, hx⟩
  · rw [textOf_append, Text.byteLength_append]
    omega
  · cases x with
    | nil => simp
    | cons y x =>
      obtain ⟨rfl, -⟩ := List.cons.inj hx
      cases (hpre q (by simp)).symm.trans hq

/-- The call `c` of one of `kinds` in the text `s`, where it is written, with all others behind its
start. -/
structure Leftmost (kinds : List Kind) (s : Text) (c : Call) : Prop where
  kind_mem : c.kind ∈ kinds
  not_blank : ¬ c.params.all isBlank
  slice : s.Slice c.start c.stop (c.kind.name ++ '(' :: c.params ++ [')'])
  tokenAt : TokenAt kinds s c.start (.function c.kind.name c.params)
  start_le : ∀ i t, TokenAt kinds s i t → (callKind? kinds t).isSome → c.start ≤ i

theorem Leftmost.isSome_callKind? (h : Leftmost kinds s c) :
    (callKind? kinds (.function c.kind.name c.params)).isSome := by
  rw [callKind?, kindAmong?_name, if_pos h.kind_mem]
  rfl

theorem leftmost_of_findCall (h : findCall kinds s = .ok (some c)) : Leftmost kinds s c := by
  have hs := eq_of_findCall h
  rw [findCall_eq] at h
  obtain ⟨pre, post, hl, hpre, hbefore, -, hparams⟩ := exists_of_firstCall h
  have hstart : c.start = (textOf pre).byteLength := congrArg Text.byteLength hbefore
  obtain ⟨t, ht, hc⟩ := exists_tokenAt hl rfl
  obtain rfl : t = callToken c.kind c.params := Segment.token.inj (eq_of_callPart? hc)
  have hle (i t) (ht : TokenAt kinds s i t) (hk : (callKind? kinds t).isSome) : c.start ≤ i := by
    rw [← isSome_callPart?] at hk
    obtain ⟨q, hq⟩ := Option.isSome_iff_exists.1 hk
    obtain ⟨pre', post', hl', rfl⟩ := ht.exists_shown hq
    rw [hstart]
    exact byteLength_le_of_first (hl.symm.trans hl') hpre (isCall_of_callPart? hq)
  exact ⟨mem_kinds_of_callPart? hc, fun hb => hparams (Text.trim_eq_nil hb),
    ⟨c.before, c.after, hs, rfl, rfl⟩, hstart ▸ ht, hle⟩

theorem findCall_eq_none_iff_tokenAt :
    findCall kinds s = .ok none ↔ ∀ i t, TokenAt kinds s i t → callKind? kinds t = none := by
  rw [findCall_eq, firstCall_eq_none_iff]
  constructor
  · intro h i t ht
    rw [← callPart?_eq_none_iff]
    refine Option.eq_none_iff_forall_ne_some.2 fun q hq => ?_
    obtain ⟨pre, post, hs, -⟩ := ht.exists_shown hq
    cases (h q (by simp [hs])).symm.trans (isCall_of_callPart? hq)
  · intro h q hq
    refine Bool.eq_false_iff.2 fun hc => ?_
    obtain ⟨pre, post, hs⟩ := List.append_of_mem hq
    obtain ⟨t, ht, hp⟩ := exists_tokenAt hs hc
    rw [callPart?_eq_none_iff.2 (h _ t ht)] at hp
    cases hp

/-- What is found among some kinds is the leftmost call of them, and nothing is found only if there
is none. With more kinds to look for, the search fails or finds a call that starts no later. -/
theorem findCall_leftmost (hsub : kinds ⊆ kinds') (s : Text) :
    (∀ c, findCall kinds s = .ok (some c) → Leftmost kinds s c ∧
      ((∃ e, findCall kinds' s = .error e) ∨
        ∃ c', findCall kinds' s = .ok (some c') ∧ c'.start ≤ c.start)) ∧
    (findCall kinds s = .ok none ↔ ∀ i t, TokenAt kinds s i t → callKind? kinds t = none) ∧
    (findCall kinds' s = .ok none → findCall kinds s = .ok none) := by
  refine ⟨fun c hc => ?_, findCall_eq_none_iff_tokenAt, fun hnone => ?_⟩
  · have hleft := leftmost_of_findCall hc
    refine ⟨hleft, ?_⟩
    obtain ⟨j, t, ht, hk, hle⟩ := hleft.tokenAt.exists_le hsub hleft.isSome_callKind?
    cases hfound : findCall kinds' s with
    | error e => exact Or.inl ⟨e, rfl⟩
    | ok found =>
      cases found with
      | none => simp [findCall_eq_none_iff_tokenAt.1 hfound j t ht] at hk
      | some c' =>
        have hstart := (leftmost_of_findCall hfound).start_le j t ht hk
        exact Or.inr ⟨c', rfl, Nat.le_trans hstart hle⟩
  · rw [findCall_eq_none_iff_tokenAt] at hnone ⊢
    intro i t ht
    refine Option.eq_none_iff_forall_ne_some.2 fun k hk => ?_
    obtain ⟨j, t', ht', hk', -⟩ := ht.exists_le hsub (by rw [hk]; rfl)
    simp [hnone j t' ht'] at hk'

/-- A call at three levels of arguments, which is inside another one if that is looked for, too. -/
theorem findCall_leftmost_nested :
    let s := "foo(attribute(:not(state(open)))) state(b)".toList
    let c : Call := ⟨"foo(attribute(:not(".toList, .state, "open".toList, "))) state(b)".toList⟩
    let c' : Call := ⟨"foo(".toList, .attr, ":not(state(open))".toList, ") state(b)".toList⟩
    [Kind.state] ⊆ [.attr, .state] ∧ findCall [.state] s = .ok (some c) ∧ Leftmost [.state] s c ∧
      c.start = 19 ∧ c.stop = 30 ∧ findCall [.attr, .state] s = .ok (some c') ∧
      c'.start ≤ c.start := by
  intro s c c'
  have hsub : [Kind.state] ⊆ [.attr, .state] := by decide
  have hc : findCall [.state] s = .ok (some c) := by decide +kernel
  have hc' : findCall [.attr, .state] s = .ok (some c') := by decide +kernel
  obtain ⟨hleft, hmore⟩ := (findCall_leftmost hsub s).1 c hc
  refine ⟨hsub, hc, hleft, by decide, by decide, hc', ?_⟩
  rcases hmore with ⟨e, he⟩ | ⟨x, hx, hle⟩
  · cases hc'.symm.trans he
  · cases hc'.symm.trans hx
    exact hle

end ComponentSheet.Macro
