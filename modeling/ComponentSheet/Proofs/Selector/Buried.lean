import ComponentSheet.Proofs.Selector.Outer

/-! Selector lists against the texts between the commas outside all brackets and strings. They
differ by the commas in parentheses that are tokens of their own. -/
namespace ComponentSheet.Selector

open Reading

variable {b : Bool} {c : Char} {s : Text} {d : Nat} {ps : List Text} {g : Segment}
  {l : List Segment}

/-- How many commas stand in parentheses that are tokens of their own, `d` of which are open. -/
def buried : Nat → List Segment → Nat
  | _, [] => 0
  | d, .token (.raw ['(']) :: l => buried (d + 1) l
  | d, .token (.raw [')']) :: l => buried (d - 1) l
  | d, .token .comma :: l => buried d l + if d = 0 then 0 else 1
  | d, _ :: l => buried d l

/-- The pieces of the segments hold all commas of `ps` but the buried ones, and without any they are
`ps`. -/
structure Agrees (d : Nat) (l : List Segment) (ps : List Text) : Prop where
  count : ps.flatten.count ',' = (pieces l).flatten.count ',' + buried d l
  eq : buried d l = 0 → ps = pieces l

theorem pieces_glue (hc : g ≠ .token .comma) (l : List Segment) :
    pieces (g :: l) = glue g.text (pieces l) := by
  obtain ⟨q, qs, hq⟩ := exists_pieces l
  rw [pieces_cons hc hq, hq]
  rfl

theorem Agrees.glue {e : Nat} (h : Agrees e l ps) (hc : g ≠ .token .comma)
    (hb : buried d (g :: l) = buried e l) : Agrees d (g :: l) (glue g.text ps) := by
  constructor
  · rw [pieces_glue hc, flatten_glue, flatten_glue, List.count_append, List.count_append, h.count,
      hb]
    omega
  · intro hz
    rw [pieces_glue hc, h.eq (hb ▸ hz)]

theorem Agrees.comma (h : Agrees 0 l ps) : Agrees 0 (.token .comma :: l) ([] :: ps) := by
  constructor
  · simpa [pieces, buried] using h.count
  · intro hz
    rw [pieces, h.eq (by simpa [buried] using hz)]

theorem Agrees.buried (h : Agrees (d + 1) l ps) :
    Agrees (d + 1) (.token .comma :: l) (Selector.glue [','] ps) := by
  constructor
  · have hcount := h.count
    simp [flatten_glue, pieces, Selector.buried]
    omega
  · intro hz
    simp [Selector.buried] at hz

theorem buried_other (hc : g ≠ .token .comma) (hm : g.isMark = false) (d : Nat)
    (l : List Segment) : buried d (g :: l) = buried d l := by
  rw [buried.eq_def]
  split
  · contradiction
  · rename_i heq
    cases heq
    cases hm
  · rename_i heq
    cases heq
    cases hm
  · rename_i heq
    cases heq
    exact absurd rfl hc
  · rename_i heq
    cases heq
    rfl

/-- The nesting inside `d` parentheses that are tokens of their own. -/
def bare (d : Nat) : Nest :=
  ⟨List.replicate d ')', none⟩

theorem ne_comma_of_token (hc : c ≠ ',') (s : Text) : (token c s).1 ≠ .comma := by
  intro h
  have hs := token_append c s
  rw [h] at hs
  exact hc (List.cons.inj hs).1.symm

/-- In front of a text with pieces stands a segment inside `d` parentheses that are tokens of their
own. If what is read behind it agrees with the pieces there, it does with all pieces. -/
def Extends (d : Nat) (g : Segment) (rest : Text) (ps : List Text) : Prop :=
  ∃ e ps', outerPieces true (bare e) rest = some ps' ∧ ∀ l, Agrees e l ps' → Agrees d (g :: l) ps

/-- A segment without a comma of the list that leaves nothing open or closed. -/
theorem extends_of_spans {rest : Text} (h : outerPieces true (bare d) (g.text ++ rest) = some ps)
    (hspan : Spans (bare d) g.text (bare d) rest) (hne : g ≠ .token .comma)
    (hm : g.isMark = false) : Extends d g rest ps := by
  obtain ⟨ps', hps', rfl⟩ := hspan ps h
  exact ⟨d, ps', hps', fun l hl => hl.glue hne (buried_other hne hm d l)⟩

theorem extends_comma (h : outerPieces true (bare d) (',' :: s) = some ps) :
    Extends d (.token .comma) s ps := by
  cases d with
  | zero =>
    rw [outerPieces_cons (fun h => absurd h (by decide)), if_pos ⟨rfl, rfl⟩] at h
    obtain ⟨ps', hps', rfl⟩ := Option.map_eq_some_iff.1 h
    exact ⟨0, ps', hps', fun l hl => hl.comma⟩
  | succ d =>
    have hspan : Spans (bare (d + 1)) [','] (bare (d + 1)) s :=
      .single (fun h => absurd h (by decide)) (fun h => by cases h.2) (step_plain (by decide) _)
    obtain ⟨ps', hps', rfl⟩ := hspan ps h
    exact ⟨d + 1, ps', hps', fun l hl => hl.buried⟩

/-- A parenthesis that is a token of its own. -/
theorem extends_mark (h : outerPieces true (bare d) (c :: s) = some ps)
    (hmark : c ∈ marks ∧ c ≠ '[') (hq : c ≠ '"' ∧ c ≠ '\'') :
    Extends d (.token (.raw [c])) s ps := by
  have hcases : c = '(' ∨ c = ')' ∨ c = ']' := by
    simpa [marks, hq.1, hq.2, hmark.2] using hmark.1
  have hb : c = '\\' → s = [] := by
    rintro rfl
    exact absurd hmark.1 (by decide)
  have hcomma : c ≠ ',' := by
    rintro rfl
    exact absurd hmark.1 (by decide)
  -- A bracket that closes nothing would leave the text without pieces.
  have hclose : (bare d).step c ≠ none := by
    intro hn
    rw [outerPieces_cons hb, if_neg (fun h => hcomma h.1), hn] at h
    cases h
  have hne : Segment.token (.raw [c]) ≠ .token .comma := by
    intro h
    cases h
  rcases hcases with rfl | rfl | rfl
  · obtain ⟨ps', hps', rfl⟩ := spans_open isPair_parens _ s ps h
    exact ⟨d + 1, ps', hps', fun l hl => hl.glue hne rfl⟩
  · cases d with
    | zero => exact absurd rfl hclose
    | succ d =>
      have hspan : Spans (bare (d + 1)) [')'] (bare d) s := .single hb (by simp) rfl
      obtain ⟨ps', hps', rfl⟩ := hspan ps h
      exact ⟨d, ps', hps', fun l hl => hl.glue hne rfl⟩
  · cases d with
    | zero => exact absurd rfl hclose
    | succ d => exact absurd rfl hclose

theorem blanks_of_segment (b : Bool) (hb : isBlank c) (s : Text) :
    (segment b c s).1.text.all isBlank ∧ (segment b c s).1 ≠ .token .comma ∧
      (segment b c s).1.isMark = false := by
  rw [segment_blank b hb]
  dsimp only
  split
  · exact ⟨by simp [Segment.text, Combinator.sign, hb], by simp, rfl⟩
  · exact ⟨by simp [Segment.text, hb], by simp, rfl⟩

theorem extends_segment (b : Bool) (h : outerPieces true (bare d) (c :: s) = some ps)
    (hq : ∀ q, (segment b c s).1 = .token (.raw [q]) → q ≠ '"' ∧ q ≠ '\'') :
    Extends d (segment b c s).1 (segment b c s).2 ps := by
  have hs := segment_append b c s
  by_cases hb : isBlank c
  · obtain ⟨hall, hne, hm⟩ := blanks_of_segment b hb s
    rw [← hs] at h
    exact extends_of_spans h (spans_blanks hall _ _) hne hm
  · have hb : isBlank c = false := by simpa using hb
    rw [segment_not_blank b hb] at hq hs ⊢
    by_cases hc : c = ','
    · subst hc
      exact extends_comma h
    · by_cases hm : (Segment.token (token c s).1).isMark
      · obtain ⟨ht, hmark⟩ := token_of_isMark hm
        rw [ht] at hq ⊢
        exact extends_mark h hmark (hq c rfl)
      · have hm : (Segment.token (token c s).1).isMark = false := by simpa using hm
        have hne : Segment.token (token c s).1 ≠ .token .comma :=
          fun heq => ne_comma_of_token hc s (Segment.token.inj heq)
        rw [← hs] at h
        exact extends_of_spans h (spans_token hb hc hm _) hne hm

theorem agrees_of_outerPieces (h : outerPieces true (bare d) s = some ps)
    (hq : ∀ q, Segment.token (.raw [q]) ∈ segmentsFrom b s → q ≠ '"' ∧ q ≠ '\'') :
    Agrees d (segmentsFrom b s) ps := by
  fun_induction segmentsFrom b s generalizing d ps with
  | case1 =>
    rw [outerPieces] at h
    split at h
    · cases h
      exact ⟨by simp [pieces, Selector.buried], fun _ => by simp [pieces]⟩
    · cases h
  | case2 b c s r =>
    rename_i ih
    obtain ⟨e, ps', hps', hagrees⟩ := extends_segment b h fun q hr => hq q (hr ▸ List.mem_cons_self)
    exact hagrees _ (ih hps' fun q hm => hq q (List.mem_cons_of_mem _ hm))

theorem count_trim (hc : isBlank c = false) (s : Text) : s.trim.count c = s.count c := by
  have hnone : ∀ {w : Text}, w.all isBlank → w.count c = 0 := by
    intro w hw
    apply List.count_eq_zero.2
    intro hm
    have hb := List.all_eq_true.1 hw c hm
    rw [hc] at hb
    cases hb
  obtain ⟨u, v, hs, hu, hv⟩ := Text.exists_eq_trim s
  have hcount := congrArg (List.count c) hs
  rw [List.count_append, List.count_append, hnone hu, hnone hv] at hcount
  omega

/-- Trimming entries and leaving out the empty ones takes no comma away. -/
theorem count_flatten_entries (hc : isBlank c = false) (ps : List Text) :
    ((ps.map Text.trim).filter (· ≠ [])).flatten.count c = ps.flatten.count c := by
  induction ps with
  | nil => rfl
  | cons p ps ih =>
    rw [List.flatten_cons, List.count_append, ← count_trim hc p, ← ih, List.map_cons]
    by_cases hp : p.trim = []
    · rw [List.filter_cons_of_neg (by simpa using hp), hp]
      simp
    · rw [List.filter_cons_of_pos (by simpa using hp), List.flatten_cons, List.count_append]

/-- A list whose brackets and strings are nested and closed is cut at the commas outside all of
them, exactly if no comma stands in parentheses that are tokens of their own; but there must be no
string outside the arguments of functions and outside square brackets, and in brackets no backslash
in front of a mark, strings apart. -/
theorem entries_eq_iff_buried {l : List Text} (h : outerEntries? false s = some l)
    (he : (outerEntries? true s).isSome)
    (hq : ∀ q, Segment.token (.raw [q]) ∈ segments s → q ≠ '"' ∧ q ≠ '\'') :
    entries s = l ↔ buried 0 (segments s) = 0 := by
  obtain ⟨ps, hps, rfl⟩ := Option.map_eq_some_iff.1 h
  obtain ⟨l', hl'⟩ := Option.isSome_iff_exists.1 he
  obtain ⟨ps', hstrict, -⟩ := Option.map_eq_some_iff.1 hl'
  obtain rfl : ps = ps' := Option.some.inj (hps.symm.trans (outerPieces_of_strict hstrict))
  have hagrees : Agrees 0 (segments s) ps := agrees_of_outerPieces hstrict hq
  constructor
  · intro heq
    have hcomma : isBlank ',' = false := by decide
    have hleft : ps.flatten.count ',' = (entries s).flatten.count ',' := by
      rw [heq, count_flatten_entries hcomma]
    have hright : (pieces (segments s)).flatten.count ',' = (entries s).flatten.count ',' := by
      rw [entries, count_flatten_entries hcomma]
    have hcount := hagrees.count
    omega
  · intro hz
    rw [entries, hagrees.eq hz]

theorem entries_eq_iff_buried_nested :
    let s := " [b=',('] , :is(.c\\,d, ([e,f]), \"g)\") (.i)".toList
    let l := ["[b=',(']".toList, ":is(.c\\,d, ([e,f]), \"g)\") (.i)".toList]
    outerEntries? false s = some l ∧ (outerEntries? true s).isSome ∧
      (∀ q, Segment.token (.raw [q]) ∈ segments s → q ≠ '"' ∧ q ≠ '\'') ∧ entries s = l := by
  intro s l
  have h : outerEntries? false s = some l := by decide +kernel
  have he : (outerEntries? true s).isSome := by decide +kernel
  have hraw : (segments s).all fun g =>
      g ≠ .token (.raw ['"']) ∧ g ≠ .token (.raw ['\'']) := by decide +kernel
  have hq : ∀ q, Segment.token (.raw [q]) ∈ segments s → q ≠ '"' ∧ q ≠ '\'' := by
    intro q hm
    have hne := of_decide_eq_true (List.all_eq_true.1 hraw _ hm)
    constructor
    · rintro rfl
      exact hne.1 rfl
    · rintro rfl
      exact hne.2 rfl
  have hb : buried 0 (segments s) = 0 := by decide +kernel
  exact ⟨h, he, hq, (entries_eq_iff_buried h he hq).2 hb⟩

/-- A list is cut in parentheses that are tokens of their own, in strings outside the brackets of
other tokens, and behind a parenthesis that a backslash takes in. -/
theorem entries_ne_outerEntries :
    (outerEntries? false "(a, b)".toList = some ["(a, b)".toList] ∧
        entries "(a, b)".toList = ["(a".toList, "b)".toList]) ∧
      (outerEntries? false "\"a, b\"".toList = some ["\"a, b\"".toList] ∧
        entries "\"a, b\"".toList = ["\"a".toList, "b\"".toList]) ∧
      outerEntries? false ":is(.a\\), .b)".toList = some [":is(.a\\), .b)".toList] ∧
        entries ":is(.a\\), .b)".toList = [":is(.a\\)".toList, ".b)".toList] := by
  decide +kernel

end ComponentSheet.Selector
