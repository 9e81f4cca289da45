import ComponentSheet.Proofs.Selector.Listed

/-! The commas of a selector list that stand outside all brackets and strings. -/
namespace ComponentSheet.Selector

open Reading

/-- The brackets that are to be closed, the innermost first, and the quote of the string, if any. -/
structure Nest where
  closers : List Char
  quote : Option Char
deriving DecidableEq

namespace Nest

def outside : Nest := ⟨[], none⟩

def step (n : Nest) (c : Char) : Option Nest :=
  match n.quote with
  | some q => some ⟨n.closers, if c = q then none else some q⟩
  | none =>
    if c = '"' ∨ c = '\'' then some ⟨n.closers, some c⟩
    else if c = '(' then some ⟨')' :: n.closers, none⟩
    else if c = '[' then some ⟨']' :: n.closers, none⟩
    else if c = ')' ∨ c = ']' then
      match n.closers with
      | [] => none
      | d :: closers => if c = d then some ⟨closers, none⟩ else none
    else some n

end Nest

/-- The characters that matter to nesting. -/
def marks : Text := ['"', '\'', '(', ')', '[', ']']

/-- A bracket and the one that closes it. -/
def IsPair (o cl : Char) : Prop :=
  (o = '(' ∧ cl = ')') ∨ (o = '[' ∧ cl = ']')

/-- Puts a text in front of the first one. -/
def glue (t : Text) (ps : List Text) : List Text :=
  (t ++ ps.headD []) :: ps.tail

/-- The texts between the commas outside all brackets and strings, if these are nested and all
closed. A backslash takes the character behind it, whatever it is; where this is `strict`, it must
not be a mark if it stands in brackets, outside their strings. -/
def outerPieces (strict : Bool) : Nest → Text → Option (List Text)
  | n, [] => if n = .outside then some [[]] else none
  | n, '\\' :: c :: s =>
    if strict ∧ n.closers ≠ [] ∧ n.quote = none ∧ c ∈ marks then none
    else (outerPieces strict n s).map (glue ['\\', c])
  | n, c :: s =>
    if c = ',' ∧ n = .outside then (outerPieces strict n s).map ([] :: ·)
    else (n.step c).bind fun n' => (outerPieces strict n' s).map (glue [c])

/-- The entries of a list that is cut at the commas outside all brackets and strings. -/
def outerEntries? (strict : Bool) (s : Text) : Option (List Text) :=
  (outerPieces strict .outside s).map fun ps => (ps.map Text.trim).filter (· ≠ [])

variable {strict b : Bool} {n n' n'' : Nest} {c o cl : Char} {q : Option Char} {s t u v w : Text}
  {d : Nat} {ps ps' : List Text} {st inner : List Char} {g : Segment} {l : List Segment}

theorem flatten_glue (t : Text) (ps : List Text) : (glue t ps).flatten = t ++ ps.flatten := by
  cases ps <;> simp [glue]

theorem glue_append (t u : Text) (ps : List Text) : glue (t ++ u) ps = glue t (glue u ps) := by
  simp [glue]

theorem glue_nil (h : ps ≠ []) : glue [] ps = ps := by
  cases ps with
  | nil => exact absurd rfl h
  | cons p ps => rfl

theorem outerPieces_cons (h : c = '\\' → s = []) :
    outerPieces strict n (c :: s) =
      if c = ',' ∧ n = .outside then (outerPieces strict n s).map ([] :: ·)
      else (n.step c).bind fun n' => (outerPieces strict n' s).map (glue [c]) := by
  rw [outerPieces]
  rintro e s' rfl rfl
  cases h rfl

theorem ne_nil_of_outerPieces (h : outerPieces strict n s = some ps) : ps ≠ [] := by
  revert h
  fun_cases outerPieces strict n s <;> intro h
  · cases h
    simp
  · cases h
  · cases h
  · obtain ⟨ps', -, rfl⟩ := Option.map_eq_some_iff.1 h
    simp [glue]
  · obtain ⟨ps', -, rfl⟩ := Option.map_eq_some_iff.1 h
    simp
  · obtain ⟨n', -, h⟩ := Option.bind_eq_some_iff.1 h
    obtain ⟨ps', -, rfl⟩ := Option.map_eq_some_iff.1 h
    simp [glue]

/-- With the stricter reading a text has the same pieces, if any. -/
theorem outerPieces_of_strict (h : outerPieces true n s = some ps) :
    outerPieces false n s = some ps := by
  fun_induction outerPieces true n s generalizing ps with
  | case1 => exact h
  | case2 => cases h
  | case3 => cases h
  | case4 n c s hc ih =>
    obtain ⟨ps', hps, rfl⟩ := Option.map_eq_some_iff.1 h
    rw [outerPieces, if_neg (fun h => Bool.false_ne_true h.1), ih hps]
    rfl
  | case5 n c s hs hc ih =>
    obtain ⟨ps', hps, rfl⟩ := Option.map_eq_some_iff.1 h
    rw [outerPieces, if_pos hc, ih hps]
    · rfl
    · exact hs
  | case6 n c s hs hc ih =>
    obtain ⟨n', hn, h⟩ := Option.bind_eq_some_iff.1 h
    obtain ⟨ps', hps, rfl⟩ := Option.map_eq_some_iff.1 h
    rw [outerPieces, if_neg hc, hn, Option.bind_some, ih n' hps]
    · rfl
    · exact hs

/-- Where a text with `v` behind it has pieces, `u` leads from `n` to `n'` and no comma in it is one
of the list. -/
def Spans (n : Nest) (u : Text) (n' : Nest) (v : Text) : Prop :=
  ∀ ps, outerPieces true n (u ++ v) = some ps →
    ∃ ps', outerPieces true n' v = some ps' ∧ ps = glue u ps'

namespace Spans

theorem nil (n : Nest) (v : Text) : Spans n [] n v := by
  intro ps h
  exact ⟨ps, h, (glue_nil (ne_nil_of_outerPieces h)).symm⟩

theorem append (h : Spans n u n' (v ++ w)) (h' : Spans n' v n'' w) : Spans n (u ++ v) n'' w := by
  intro ps hps
  rw [List.append_assoc] at hps
  obtain ⟨ps', hps', rfl⟩ := h ps hps
  obtain ⟨ps'', hps'', rfl⟩ := h' ps' hps'
  exact ⟨ps'', hps'', (glue_append u v ps'').symm⟩

/-- One character, unless it is a comma of the list or a backslash. -/
theorem single (hb : c = '\\' → v = []) (hc : ¬ (c = ',' ∧ n = .outside))
    (h : n.step c = some n') : Spans n [c] n' v := by
  intro ps hps
  rw [List.singleton_append, outerPieces_cons hb, if_neg hc, h, Option.bind_some] at hps
  obtain ⟨ps', hps', rfl⟩ := Option.map_eq_some_iff.1 hps
  exact ⟨ps', hps', rfl⟩

theorem escaped (n : Nest) (c : Char) (v : Text) : Spans n ['\\', c] n v := by
  intro ps hps
  rw [List.cons_append, List.singleton_append, outerPieces] at hps
  split at hps
  · cases hps
  · obtain ⟨ps', hps', rfl⟩ := Option.map_eq_some_iff.1 hps
    exact ⟨ps', hps', rfl⟩

end Spans

theorem step_plain (hc : c ∉ marks) (st : List Char) :
    Nest.step ⟨st, none⟩ c = some ⟨st, none⟩ := by
  simp only [marks, List.mem_cons, List.not_mem_nil, or_false, not_or] at hc
  simp [Nest.step, hc]

theorem spans_plain (hu : ∀ c ∈ u, c ∉ marks ∧ c ≠ ',' ∧ c ≠ '\\') (st : List Char) (v : Text) :
    Spans ⟨st, none⟩ u ⟨st, none⟩ v := by
  induction u with
  | nil => exact .nil _ _
  | cons c u ih =>
    rw [List.forall_mem_cons] at hu
    obtain ⟨⟨hm, hc, hb⟩, hu⟩ := hu
    exact (Spans.single (fun h => absurd h hb) (fun h => hc h.1) (step_plain hm st)).append
      (u := [c]) (ih hu)

theorem notMem_marks_of_isNameChar (hc : isNameChar c) : c ∉ marks ∧ c ≠ ',' := by
  have hall : (',' :: marks).any isNameChar = false := by decide
  have hm : c ∉ ',' :: marks := fun hm => List.any_eq_false.1 hall c hm hc
  rw [List.mem_cons, not_or] at hm
  exact ⟨hm.2, hm.1⟩

/-- A name has no marks but those that a backslash takes in. -/
theorem spans_name (st : List Char) (s : Text) :
    Spans ⟨st, none⟩ (name s).1 ⟨st, none⟩ (name s).2 := by
  fun_induction name s with
  | case1 => exact .nil _ _
  | case2 c s ih => exact (Spans.escaped _ c _).append (u := ['\\', c]) ih
  | case3 c s hs hc ih =>
    obtain ⟨hm, hcomma⟩ := notMem_marks_of_isNameChar hc
    refine Spans.append (u := [c]) (.single (fun hb => ?_) (fun h => hcomma h.1)
      (step_plain hm st)) ih
    cases s with
    | nil => rfl
    | cons e s => exact (hs e s hb rfl).elim
  | case4 => exact .nil _ _

theorem spans_blanks (hu : u.all isBlank) (st : List Char) (v : Text) :
    Spans ⟨st, none⟩ u ⟨st, none⟩ v := by
  have hnone : (',' :: '\\' :: marks).any isBlank = false := by decide
  refine spans_plain (fun c hc => ?_) st v
  have hm : c ∉ ',' :: '\\' :: marks :=
    fun hm => List.any_eq_false.1 hnone c hm (List.all_eq_true.1 hu c hc)
  simp only [List.mem_cons, not_or] at hm
  exact ⟨hm.2.2, hm.1, hm.2.1⟩

theorem isPair_parens : IsPair '(' ')' :=
  .inl ⟨rfl, rfl⟩

theorem isPair_brackets : IsPair '[' ']' :=
  .inr ⟨rfl, rfl⟩

theorem IsPair.mem_marks (h : IsPair o cl) : o ∈ marks ∧ cl ∈ marks := by
  rcases h with ⟨rfl, rfl⟩ | ⟨rfl, rfl⟩ <;> decide

theorem IsPair.not_quote (h : IsPair o cl) :
    ¬ (o = '"' ∨ o = '\'') ∧ ¬ (cl = '"' ∨ cl = '\'') := by
  rcases h with ⟨rfl, rfl⟩ | ⟨rfl, rfl⟩ <;> decide

/-- Two pairs are the same or have no bracket in common. -/
theorem IsPair.unique {k e : Char} (h : IsPair o cl) (h' : IsPair k e) :
    (k = o ↔ e = cl) ∧ k ≠ cl ∧ e ≠ o := by
  rcases h with ⟨rfl, rfl⟩ | ⟨rfl, rfl⟩ <;> rcases h' with ⟨rfl, rfl⟩ | ⟨rfl, rfl⟩ <;> decide

theorem step_open (h : IsPair o cl) (st : List Char) :
    Nest.step ⟨st, none⟩ o = some ⟨cl :: st, none⟩ := by
  rcases h with ⟨rfl, rfl⟩ | ⟨rfl, rfl⟩ <;> rfl

/-- All that a character can do to the nesting. -/
theorem step_cases (h : Nest.step ⟨st, q⟩ c = some n') :
    (∃ e, q = some e ∧ n' = ⟨st, if c = e then none else some e⟩) ∨
      q = none ∧ ((c = '"' ∨ c = '\'') ∧ n' = ⟨st, some c⟩ ∨
        (∃ k, IsPair c k ∧ n' = ⟨k :: st, none⟩) ∨
        (∃ k rest, IsPair k c ∧ st = c :: rest ∧ n' = ⟨rest, none⟩) ∨
        c ∉ marks ∧ n' = ⟨st, none⟩) := by
  rw [Nest.step] at h
  split at h
  · rename_i e he
    obtain rfl := Option.some.inj h
    exact .inl ⟨e, he, rfl⟩
  · rename_i hq
    refine .inr ⟨hq, ?_⟩
    split at h
    · rename_i hquote
      exact .inl ⟨hquote, (Option.some.inj h).symm⟩
    · rename_i hquote
      refine .inr ?_
      split at h
      · rename_i hc
        exact .inl ⟨')', hc ▸ isPair_parens, (Option.some.inj h).symm⟩
      · rename_i hparen
        split at h
        · rename_i hc
          exact .inl ⟨']', hc ▸ isPair_brackets, (Option.some.inj h).symm⟩
        · rename_i hbracket
          refine .inr ?_
          split at h
          · rename_i hclosing
            have hpair : ∃ k, IsPair k c := by
              rcases hclosing with rfl | rfl
              · exact ⟨'(', isPair_parens⟩
              · exact ⟨'[', isPair_brackets⟩
            obtain ⟨k, hk⟩ := hpair
            split at h
            · cases h
            · rename_i e rest hst
              split at h
              · rename_i hc
                exact .inl ⟨k, rest, hk, hc ▸ hst, (Option.some.inj h).symm⟩
              · cases h
          · rename_i hclosing
            obtain rfl : q = none := hq
            refine .inr ⟨?_, (Option.some.inj h).symm⟩
            rw [not_or] at hquote hclosing
            simp [marks, hquote, hparen, hbracket, hclosing]

theorem group_quote (hq : c = '"' ∨ c = '\'') :
    group o cl d none (c :: s) = Text.took c (group o cl d (some c) s) := by
  rw [group_plain, if_pos hq]

theorem group_notMark (hcl : IsPair o cl) (hc : c ∉ marks) :
    group o cl d none (c :: s) = Text.took c (group o cl d none s) := by
  have hne : ∀ e ∈ marks, c ≠ e := fun e he hce => hc (hce ▸ he)
  have hq : ¬ (c = '"' ∨ c = '\'') := by
    rintro (h | h)
    · exact hne _ (by decide) h
    · exact hne _ (by decide) h
  rw [group_plain, if_neg hq, if_neg (hne _ hcl.mem_marks.1), if_neg (hne _ hcl.mem_marks.2)]

/-- An opening bracket counts in a group if it is of the kind of the group. -/
theorem group_opening {k : Char} (hcl : IsPair o cl) (hc : IsPair c k) (inner : List Char)
    (s : Text) :
    group o cl (inner.count cl) none (c :: s) =
      Text.took c (group o cl ((k :: inner).count cl) none s) := by
  obtain ⟨hsame, hne, -⟩ := hcl.unique hc
  rw [group_plain, if_neg hc.not_quote.1]
  by_cases ho : c = o
  · obtain rfl := hsame.1 ho
    rw [if_pos ho, List.count_cons_self]
  · rw [if_neg ho, if_neg hne, List.count_cons_of_ne (fun h => ho (hsame.2 h))]

theorem group_closing {k : Char} (hcl : IsPair o cl) (hc : IsPair k c) (inner : List Char)
    (s : Text) :
    group o cl ((c :: inner).count cl) none (c :: s) =
      Text.took c (group o cl (inner.count cl) none s) := by
  obtain ⟨-, -, hne⟩ := hcl.unique hc
  rw [group_plain, if_neg hc.not_quote.2, if_neg hne]
  by_cases h : c = cl
  · rw [if_pos h, h, List.count_cons_self]
  · rw [if_neg h, List.count_cons_of_ne h]

/-- A group looks for the bracket that closes it, by brackets of its own kind. -/
theorem group_step (hcl : IsPair o cl) (hb : c ≠ '\\')
    (h : Nest.step ⟨inner ++ cl :: st, q⟩ c = some n') :
    (c = cl ∧ q = none ∧ inner = [] ∧ n' = ⟨st, none⟩) ∨
      ∃ inner' q', n' = ⟨inner' ++ cl :: st, q'⟩ ∧ ∀ s, group o cl (inner.count cl) q (c :: s) =
        Text.took c (group o cl (inner'.count cl) q' s) := by
  rcases step_cases h with ⟨e, rfl, rfl⟩ | ⟨rfl, hcase⟩
  · exact .inr ⟨inner, _, rfl, fun s => group_string hb⟩
  · rcases hcase with ⟨hq, rfl⟩ | ⟨k, hk, rfl⟩ | ⟨k, rest, hk, hst, rfl⟩ | ⟨hc, rfl⟩
    · exact .inr ⟨inner, some c, rfl, fun s => group_quote hq⟩
    · exact .inr ⟨k :: inner, none, rfl, group_opening hcl hk inner⟩
    · cases inner with
      | nil =>
        obtain ⟨rfl, rfl⟩ := List.cons.inj hst
        exact .inl ⟨rfl, rfl, rfl, rfl⟩
      | cons e inner =>
        obtain ⟨rfl, rfl⟩ := List.cons.inj hst
        exact .inr ⟨inner, none, rfl, group_closing hcl hk inner⟩
    · exact .inr ⟨inner, none, rfl, fun s => group_notMark hcl hc⟩

/-- A backslash at the end of a text leaves brackets open. -/
theorem outerPieces_backslash_nil (hst : st ≠ []) (h : Nest.step ⟨st, q⟩ '\\' = some n') :
    outerPieces true n' [] = none := by
  have hclosers : n'.closers = st := by
    cases q with
    | some q =>
      cases h
      rfl
    | none =>
      rw [step_plain (by decide)] at h
      cases h
      rfl
  rw [outerPieces, if_neg]
  rintro rfl
  exact hst hclosers.symm

/-- A text that goes on in a bracket and has pieces goes on in a group up to the one that closes the
bracket. -/
theorem exists_group (hcl : IsPair o cl)
    (h : outerPieces true ⟨inner ++ cl :: st, q⟩ s = some ps) :
    ∃ a rest ps', group o cl (inner.count cl) q s = some (a, rest) ∧
      outerPieces true ⟨st, none⟩ rest = some ps' ∧ ps = glue (a ++ [cl]) ps' := by
  have hne : ∀ {inner : List Char} {q : Option Char},
      (⟨inner ++ cl :: st, q⟩ : Nest) ≠ .outside := by
    intro inner q h
    have hnil := congrArg Nest.closers h
    simp [Nest.outside] at hnil
  generalize hn : (⟨inner ++ cl :: st, q⟩ : Nest) = n at h
  fun_induction outerPieces true n s generalizing inner q ps with
  | case1 => exact absurd hn hne
  | case2 => cases h
  | case3 => cases h
  | case4 n c s hc ih =>
    obtain ⟨ps', hps, rfl⟩ := Option.map_eq_some_iff.1 h
    obtain ⟨a, rest, ps'', hg, hrest, rfl⟩ := ih hn hps
    refine ⟨'\\' :: c :: a, rest, ps'', ?_, hrest, (glue_append ['\\', c] _ _).symm⟩
    subst hn
    cases q with
    | some q =>
      rw [group, hg]
      rfl
    | none =>
      have hm : c ∉ marks := fun hm => hc ⟨rfl, by simp, rfl, hm⟩
      rw [group_notMark hcl (by decide), group_notMark hcl hm, hg]
      rfl
  | case5 n c s hs hc ih => exact absurd (hn.trans hc.2) hne
  | case6 n c s hs hc ih =>
    obtain ⟨n', hstep, h⟩ := Option.bind_eq_some_iff.1 h
    obtain ⟨ps', hps, rfl⟩ := Option.map_eq_some_iff.1 h
    subst hn
    have hb : c ≠ '\\' := by
      rintro rfl
      cases s with
      | nil =>
        rw [outerPieces_backslash_nil (by simp) hstep] at hps
        cases hps
      | cons e s => exact (hs e s rfl rfl).elim
    rcases group_step hcl hb hstep with ⟨rfl, rfl, rfl, rfl⟩ | ⟨inner', q', rfl, hgroup⟩
    · refine ⟨[], s, ps', ?_, hps, rfl⟩
      rw [group_plain]
      rcases hcl with ⟨rfl, rfl⟩ | ⟨rfl, rfl⟩ <;> rfl
    · obtain ⟨a, rest, ps'', hg, hrest, rfl⟩ := ih _ rfl hps
      refine ⟨c :: a, rest, ps'', ?_, hrest, (glue_append [c] _ _).symm⟩
      rw [hgroup, hg]
      rfl

theorem exists_group_bracket (hcl : IsPair o cl)
    (h : outerPieces true ⟨cl :: st, none⟩ s = some ps) :
    ∃ a rest ps', group o cl 0 none s = some (a, rest) ∧
      outerPieces true ⟨st, none⟩ rest = some ps' ∧ ps = glue (a ++ [cl]) ps' := by
  have h : outerPieces true ⟨[] ++ cl :: st, none⟩ s = some ps := h
  exact exists_group hcl h

theorem spans_open (hcl : IsPair o cl) (st : List Char) (v : Text) :
    Spans ⟨st, none⟩ [o] ⟨cl :: st, none⟩ v := by
  refine .single ?_ ?_ (step_open hcl st)
  · rintro rfl
    exact absurd hcl.mem_marks.1 (by decide)
  · rintro ⟨rfl, -⟩
    exact absurd hcl.mem_marks.1 (by decide)

/-- What a group holds, with the brackets around it, has no comma of the list. -/
theorem spans_group (hcl : IsPair o cl) (h : group o cl 0 none s = some (u, v)) (st : List Char) :
    Spans ⟨st, none⟩ (o :: u ++ [cl]) ⟨st, none⟩ v := by
  intro ps hps
  have hs : o :: u ++ [cl] ++ v = [o] ++ s := by simp [eq_of_group h]
  rw [hs] at hps
  obtain ⟨ps', hps', rfl⟩ := spans_open hcl st s ps hps
  obtain ⟨a, rest, ps'', hg, hrest, rfl⟩ := exists_group_bracket hcl hps'
  cases h.symm.trans hg
  exact ⟨ps'', hrest, (glue_append [o] _ _).symm⟩

/-- A bracket that a group does not find closed is not closed. -/
theorem spans_unclosed (hcl : IsPair o cl) (h : group o cl 0 none s = none) (st : List Char)
    (n : Nest) : Spans ⟨st, none⟩ (o :: s) n [] := by
  intro ps hps
  rw [List.append_nil, ← List.singleton_append] at hps
  obtain ⟨ps', hps', -⟩ := spans_open hcl st s ps hps
  obtain ⟨a, rest, ps'', hg, -⟩ := exists_group_bracket hcl hps'
  cases h.symm.trans hg

/-- A name with its arguments, or with a parenthesis that is never closed. -/
theorem spans_applied (st : List Char) (h : name s = (t, '(' :: u)) :
    (∀ a v, parenthesized u = some (a, v) →
        Spans ⟨st, none⟩ (Token.applied t (some a)) ⟨st, none⟩ v) ∧
      (parenthesized u = none → Spans ⟨st, none⟩ (t ++ '(' :: u) ⟨st, none⟩ []) := by
  have hname := spans_name st s
  rw [h] at hname
  constructor
  · intro a v ha
    have hgroup := spans_group isPair_parens ha st
    rw [Token.applied, List.append_assoc]
    refine Spans.append ?_ hgroup
    have hu : '(' :: a ++ [')'] ++ v = '(' :: u := by simp [eq_of_group ha]
    rw [hu]
    exact hname
  · intro hu
    refine Spans.append ?_ (spans_unclosed isPair_parens hu st _)
    rw [List.append_nil]
    exact hname

theorem spans_pseudo {colons : Text} {mk : Text → Option Text → Token}
    (hmk : ∀ n a, (mk n a).lexeme = colons ++ Token.applied n a) (hc : ∀ c ∈ colons, c = ':')
    (st : List Char) (s : Text) :
    Spans ⟨st, none⟩ (pseudo colons mk s).1.lexeme ⟨st, none⟩ (pseudo colons mk s).2 := by
  have hcolons (v : Text) : Spans ⟨st, none⟩ colons ⟨st, none⟩ v := by
    refine spans_plain (fun c h => ?_) st v
    rw [hc c h]
    decide
  have hname := spans_name st s
  rw [pseudo]
  split
  · rename_i t u ht
    obtain ⟨hclosed, hopen⟩ := spans_applied st ht
    split
    · rename_i a rest ha
      rw [hmk]
      exact (hcolons _).append (hclosed a rest ha)
    · rename_i hu
      have hs := name_append s
      rw [ht] at hs
      rw [Token.lexeme_raw, ← hs]
      exact (hcolons _).append (hopen hu)
  · rename_i t v hv ht
    rw [ht] at hname
    rw [hmk]
    exact (hcolons _).append hname

theorem spans_named (st : List Char) (s : Text) :
    Spans ⟨st, none⟩ (named s).1.lexeme ⟨st, none⟩ (named s).2 := by
  have hname := spans_name st s
  rw [named]
  split
  · rename_i t u ht
    obtain ⟨hclosed, hopen⟩ := spans_applied st ht
    split
    · rename_i a rest ha
      exact hclosed a rest ha
    · rename_i hu
      exact hopen hu
  · rename_i t v hv ht
    rwa [ht] at hname

/-- The tokens that matter to nesting: opening square brackets are none. -/
def Segment.isMark : Segment → Bool
  | .token (.raw [c]) => c ∈ marks ∧ c ≠ '['
  | _ => false

theorem spans_sign (hc : c ∉ marks ∧ c ≠ ',' ∧ c ≠ '\\') (st : List Char) (s v : Text) :
    Spans ⟨st, none⟩ ([c] ++ s.takeWhile isBlank) ⟨st, none⟩ v :=
  (spans_plain (u := [c]) (by simpa using hc) st _).append (spans_blanks (by simp) st v)

/-- Most tokens have no comma of the list and leave nothing open or closed. -/
theorem spans_token (hb : isBlank c = false) (hc : c ≠ ',')
    (hm : (Segment.token (token c s).1).isMark = false) (st : List Char) :
    Spans ⟨st, none⟩ (token c s).1.lexeme ⟨st, none⟩ (token c s).2 := by
  have hmark {e : Char} (he : e ∉ marks ∧ e ≠ ',' ∧ e ≠ '\\') (v : Text) :
      Spans ⟨st, none⟩ [e] ⟨st, none⟩ v := spans_plain (by simpa using he) st v
  revert hm
  fun_cases token c s <;> intro hm
  case case1 | case2 | case3 => exact spans_sign (by decide) st s _
  case case4 => contradiction
  case case5 | case6 =>
    subst c
    exact hmark (by decide) _
  case case7 h | case8 h =>
    obtain ⟨rfl, -⟩ := h
    exact (hmark (by decide) _).append (u := [_]) (spans_name st s)
  case case9 h _ _ _ _ hg =>
    subst c
    exact spans_group isPair_brackets hg st
  case case10 h _ _ hg =>
    subst c
    exact spans_unclosed isPair_brackets hg st _
  case case11 => exact spans_pseudo (fun _ _ => by rfl) (by simp) st _
  case case12 => exact spans_pseudo (fun _ _ => by rfl) (by simp) st _
  case case13 => exact spans_named st _
  case case14 hs _ hn _ _ =>
    have hb : c ≠ '\\' := by
      rintro rfl
      exact hn (by decide)
    have hm := of_decide_eq_false hm
    exact hmark ⟨fun h => hm ⟨h, hs⟩, hc, hb⟩ _

theorem token_of_isMark (h : (Segment.token (token c s).1).isMark) :
    token c s = (.raw [c], s) ∧ c ∈ marks ∧ c ≠ '[' := by
  have hs := token_append c s
  generalize token c s = r at h hs
  obtain ⟨t, rest⟩ := r
  dsimp only at h hs
  generalize hg : Segment.token t = g at h
  revert h
  fun_cases Segment.isMark g <;> intro h
  · cases hg
    obtain ⟨rfl, rfl⟩ := List.cons.inj hs
    exact ⟨rfl, of_decide_eq_true h⟩
  · cases h

end ComponentSheet.Selector
