import ComponentSheet.Proofs.Selector.Placed
import ComponentSheet.Proofs.Text.Slice
import ComponentSheet.Proofs.Text.Trimmed

/-! Tokens and blanks make up the text that was cut: each token stands in it as it is written. -/
namespace ComponentSheet.Selector

open Reading

variable {b : Bool} {i : Nat} {c : Char} {s u v w : Text} {t : Token} {g : Segment}
  {l : List Segment} {p : Placed} {k : Combinator}

/-- A token, its text and the text behind it. Combinators leave no blank behind, and a function
without arguments is one that nothing closes. -/
inductive Token.Written : Token → Text → Text → Prop
  | typeName (n v : Text) : Written (.typeName n) n v
  | universal (v : Text) : Written .universal ['*'] v
  | nesting (v : Text) : Written .nesting ['&'] v
  | className (n v : Text) : Written (.className n) ('.' :: n) v
  | idName (n v : Text) : Written (.idName n) ('#' :: n) v
  | attr (body v : Text) : Written (.attr body) ('[' :: (body ++ [']'])) v
  | pseudoClass (n : Text) {v : Text} (hv : v.head? ≠ some '(') :
      Written (.pseudoClass n none) (':' :: n) v
  | pseudoClassOf (n v : Text) {a : Text} (ha : Closed a) :
      Written (.pseudoClass n (some a)) (':' :: (n ++ '(' :: (a ++ [')']))) v
  | pseudoElement (n : Text) {v : Text} (hv : v.head? ≠ some '(') :
      Written (.pseudoElement n none) (':' :: ':' :: n) v
  | pseudoElementOf (n v : Text) {a : Text} (ha : Closed a) :
      Written (.pseudoElement n (some a)) (':' :: ':' :: (n ++ '(' :: (a ++ [')']))) v
  | function (n v : Text) {a : Text} (ha : Closed a) :
      Written (.function n a) (n ++ '(' :: (a ++ [')'])) v
  | openFunction (n : Text) {rest : Text} (hr : ∀ a v, Closed a → rest ≠ a ++ ')' :: v) :
      Written (.openFunction n rest) (n ++ '(' :: rest) []
  | descendant {w v : Text} (hn : w ≠ []) (hw : w.all isBlank)
      (hv : ∀ c ∈ v.head?, isBlank c = false) : Written (.combinator .descendant w) w v
  | child {w v : Text} (hw : w.all isBlank) (hv : ∀ c ∈ v.head?, isBlank c = false) :
      Written (.combinator .child w) ('>' :: w) v
  | nextSibling {w v : Text} (hw : w.all isBlank) (hv : ∀ c ∈ v.head?, isBlank c = false) :
      Written (.combinator .nextSibling w) ('+' :: w) v
  | subsequentSibling {w v : Text} (hw : w.all isBlank) (hv : ∀ c ∈ v.head?, isBlank c = false) :
      Written (.combinator .subsequentSibling w) ('~' :: w) v
  | comma (v : Text) : Written .comma [','] v
  | raw (text v : Text) : Written (.raw text) text v

/-- A combinator takes all blanks. One that has no sign stands behind a simple selector and in front
of another one. -/
theorem reads_combinator (h : (Segment.token (.combinator k w)).Reads b v) :
    w.all isBlank ∧ (∀ c ∈ v.head?, isBlank c = false) ∧
      (k = .descendant → w ≠ [] ∧ b ∧ startsCompound v) := by
  obtain ⟨c, s, -, hr⟩ := h
  by_cases hc : isBlank c
  · rw [segment_blank b hc] at hr
    obtain ⟨hg, rfl⟩ := Prod.mk.inj hr
    split at hg
    · rename_i hb
      cases hg
      rw [Bool.and_eq_true] at hb
      exact ⟨by simp [hc], Text.head_trimStart s, fun _ => ⟨List.cons_ne_nil _ _, hb⟩⟩
    · cases hg
  · have hc : isBlank c = false := by simpa using hc
    rw [segment_not_blank b hc] at hr
    obtain ⟨hg, rfl⟩ := Prod.mk.inj hr
    obtain ⟨hsign, ht⟩ := sign_of_token (Segment.token.inj hg)
    rw [ht s, sign] at hg ⊢
    cases hg
    refine ⟨List.all_takeWhile, Text.head_trimStart s, ?_⟩
    rintro rfl
    cases hsign

theorem written_of_reads (h : (Segment.token t).Reads b v) : t.Written t.lexeme v := by
  obtain ⟨hf, hs⟩ := h.formed
  cases t with
  | typeName n => exact .typeName n v
  | universal => exact .universal v
  | nesting => exact .nesting v
  | className n => exact .className n v
  | idName n => exact .idName n v
  | attr body => exact .attr body v
  | pseudoClass n a =>
    cases a with
    | none => exact .pseudoClass n hs.2.1
    | some a =>
      rw [Token.lexeme, Token.applied, List.append_assoc]
      exact .pseudoClassOf n v hf.2
  | pseudoElement n a =>
    cases a with
    | none => exact .pseudoElement n hs.2
    | some a =>
      rw [Token.lexeme, Token.applied, List.append_assoc]
      exact .pseudoElementOf n v hf.2
  | function n a =>
    rw [Token.lexeme, Token.applied, List.append_assoc]
    exact .function n v hf.2.2
  | openFunction n rest =>
    obtain rfl : v = [] := hs
    refine .openFunction n fun a v ha hr => ?_
    have hp := hf.2.2
    rw [parenthesized_eq_some_iff.2 ⟨hr, ha⟩] at hp
    cases hp
  | combinator k w =>
    obtain ⟨hw, hv, hd⟩ := reads_combinator h
    cases k with
    | descendant => exact .descendant (hd rfl).1 hw hv
    | child => exact .child hw hv
    | nextSibling => exact .nextSibling hw hv
    | subsequentSibling => exact .subsequentSibling hw hv
  | comma => exact .comma v
  | raw text => exact .raw text v

theorem formed_of_mem (h : g ∈ segmentsFrom b s) : g.Formed := by
  obtain ⟨l, m, hl⟩ := List.append_of_mem h
  exact (reads_of_segmentsFrom hl).formed.1

/-- Behind `i` bytes, a character that stands in no token is blank. -/
theorem isBlank_of_outside (hl : ∀ g ∈ l, g.Formed) (h : textOf l = u ++ c :: v)
    (ho : ∀ p ∈ placedFrom i b l, ¬ (p.start ≤ i + u.byteLength ∧ i + u.byteLength < p.stop)) :
    isBlank c := by
  induction l generalizing i b u with
  | nil => simp [textOf] at h
  | cons g l ih =>
    rw [List.forall_mem_cons] at hl
    have hrest (u' : Text) (hu : u = g.text ++ u') (hr : textOf l = u' ++ c :: v) : isBlank c := by
      refine ih (i := i + g.text.byteLength) (b := g.continues b) hl.2 hr ?_
      have hi : i + u.byteLength = i + g.text.byteLength + u'.byteLength := by
        rw [hu, Text.byteLength_append, Nat.add_assoc]
      rw [← hi]
      intro p hp
      refine ho p ?_
      cases g with
      | blanks w => exact hp
      | token t => exact List.mem_cons_of_mem _ hp
    rw [textOf_cons] at h
    rcases List.append_eq_append_iff.1 h with ⟨u', hu, hr⟩ | ⟨x, hg, hx⟩
    · exact hrest u' hu hr
    · cases x with
      | nil => exact hrest [] (by simpa using hg.symm) hx.symm
      | cons d x =>
        obtain ⟨rfl, -⟩ := List.cons.inj hx
        cases g with
        | blanks w =>
          have hw : w.all isBlank := hl.1
          have hmem : c ∈ w := by
            rw [show w = u ++ c :: x from hg]
            simp
          exact List.all_eq_true.1 hw c hmem
        | token t =>
          have ht : t.lexeme.byteLength = u.byteLength + Text.byteLength (c :: x) := by
            rw [← Text.byteLength_append]
            exact congrArg Text.byteLength hg
          have hpos := Text.byteLength_pos (List.cons_ne_nil c x)
          refine absurd ⟨Nat.le_add_right i _, ?_⟩ (ho _ List.mem_cons_self)
          change i + u.byteLength < i + t.lexeme.byteLength
          omega

theorem start_lt_stop (h : p ∈ placed s) : p.start < p.stop := by
  obtain ⟨u, v, b, -, -, hr⟩ := exists_of_mem_placed h
  have hpos : 0 < p.token.lexeme.byteLength := Text.byteLength_pos hr.text_ne_nil
  rw [Placed.stop]
  omega

/-- Arguments stand in their token, between its parentheses. -/
theorem slice_arguments {r : Nat × Nat} (h : p ∈ placed s) (hr : p.argumentRange? = some r) :
    ∃ o a, p.token.arguments? = some (o, a) ∧ r.1 = p.start + o.byteLength ∧
      p.start < r.1 ∧ r.2 < p.stop ∧ s.Slice r.1 r.2 a ∧ Closed a := by
  obtain ⟨u, v, b, hs, hu, hreads⟩ := exists_of_mem_placed h
  rw [Placed.argumentRange?, Option.map_eq_some_iff] at hr
  obtain ⟨⟨o, a⟩, ha, rfl⟩ := hr
  have hl := Token.lexeme_of_arguments? ha
  have ho := Text.byteLength_pos (Token.opening_ne_nil ha)
  have hclosing := Text.byteLength_pos (List.cons_ne_nil ')' [])
  refine ⟨o, a, ha, rfl, by dsimp only; omega, ?_, ⟨u ++ o, ')' :: v, ?_, ?_, rfl⟩,
    Token.closed_of_arguments? hreads.formed.1 ha⟩
  · simp only [Placed.stop, hl, Text.byteLength_append]
    omega
  · simp [hs, hl]
  · rw [Text.byteLength_append, hu]

/-- Tokens of `s` that stand in it one behind the other, with nothing but blanks outside of them. -/
structure Lossless (s : Text) (l : List Placed) : Prop where
  nonempty : ∀ p ∈ l, p.start < p.stop
  written : ∀ p ∈ l, ∃ u t v : Text, s = u ++ t ++ v ∧ u.byteLength = p.start ∧
    p.start + t.byteLength = p.stop ∧ p.token.Written t v
  ordered : l.Pairwise fun p q => p.stop ≤ q.start
  blank : ∀ (u : Text) (c : Char) (v : Text), s = u ++ c :: v →
    (∀ p ∈ l, ¬ (p.start ≤ u.byteLength ∧ u.byteLength < p.stop)) → isBlank c
  arguments : ∀ p ∈ l, ∀ r ∈ p.argumentRange?, p.start < r.1 ∧ r.2 < p.stop ∧
    ∃ o a, p.token.arguments? = some (o, a) ∧ s.Slice r.1 r.2 a ∧ Closed a

/-- Nothing of a selector is lost when it is cut into tokens, but blanks. -/
theorem lossless_placed (s : Text) : Lossless s (placed s) where
  nonempty _ hp := start_lt_stop hp
  written p hp := by
    obtain ⟨u, v, b, hs, hu, hr⟩ := exists_of_mem_placed hp
    exact ⟨u, p.token.lexeme, v, by rw [hs, List.append_assoc], hu, rfl, written_of_reads hr⟩
  ordered := pairwise_placedFrom 0 false _
  blank u c v hs ho := by
    refine isBlank_of_outside (l := segments s) (i := 0) (b := false) (fun g => formed_of_mem)
      ((textOf_segments s).trans hs) fun p hp => ?_
    rw [Nat.zero_add]
    exact ho p hp
  arguments p hp r hr := by
    obtain ⟨o, a, ha, -, hstart, hstop, hslice, hc⟩ := slice_arguments hp hr
    exact ⟨hstart, hstop, o, a, ha, hslice, hc⟩

end ComponentSheet.Selector
