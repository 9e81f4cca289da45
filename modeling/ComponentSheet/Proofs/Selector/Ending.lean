import ComponentSheet.Proofs.Selector.Rereading
import ComponentSheet.Proofs.Text.Trimmed

/-! How segments end, and what is left of them in front of a comma once blanks are trimmed. -/
namespace ComponentSheet.Selector

open Reading

variable {b : Bool} {e m n p s v w x z : Text} {c : Char} {t : Token} {g : Segment} {k : Combinator}

/-- The text ends with a backslash that takes the character behind it into a name. -/
def opensEscape : Text → Bool
  | [] => false
  | ['\\'] => true
  | '\\' :: _ :: s => opensEscape s
  | _ :: s => opensEscape s

/-- Texts from the left, where a backslash goes with the character behind it. -/
theorem escape_induction {P : Text → Prop} (nil : P []) (last : P ['\\'])
    (escaped : ∀ c s, P s → P ('\\' :: c :: s)) (plain : ∀ c s, c ≠ '\\' → P s → P (c :: s))
    (s : Text) : P s := by
  fun_induction opensEscape s with
  | case1 => exact nil
  | case2 => exact last
  | case3 c s ih => exact escaped c s ih
  | case4 c s h₁ h₂ ih =>
    refine plain c s ?_ ih
    rintro rfl
    cases s with
    | nil => exact h₁ rfl rfl
    | cons d s => exact h₂ d s rfl rfl

theorem opensEscape_cons (hc : c ≠ '\\') (s : Text) : opensEscape (c :: s) = opensEscape s := by
  rw [opensEscape.eq_def]
  split <;> simp_all

theorem opensEscape_append (h : opensEscape s = false) (t : Text) :
    opensEscape (s ++ t) = opensEscape t := by
  induction s using escape_induction with
  | nil => rfl
  | last => cases h
  | escaped c s ih => exact ih h
  | plain c s hc ih =>
    rw [opensEscape_cons hc] at h
    rw [List.cons_append, opensEscape_cons hc, ih h]

/-- How many backslashes the text ends with. -/
def finalBackslashes (s : Text) : Nat :=
  (s.reverse.takeWhile (· = '\\')).length

/-- Two backslashes at the end go together, whatever is in front of them. -/
theorem opensEscape_eq_false_iff (s : Text) :
    opensEscape s = false ↔ finalBackslashes s % 2 = 0 := by
  induction s using escape_induction with
  | nil => simp [opensEscape, finalBackslashes]
  | last => simp [opensEscape, finalBackslashes]
  | escaped c s ih =>
    rw [opensEscape, ih, finalBackslashes, finalBackslashes, List.reverse_cons, List.reverse_cons,
      List.append_assoc, List.takeWhile_append]
    split
    · by_cases hc : c = '\\'
      · simp_all
      · simp_all
    · rfl
  | plain c s hc ih =>
    rw [opensEscape_cons hc, ih, finalBackslashes, finalBackslashes, List.reverse_cons,
      List.takeWhile_append]
    split
    · simp_all
    · rfl

theorem getLast_of_opensEscape (h : opensEscape s) : s.getLast? = some '\\' := by
  induction s using escape_induction with
  | nil => cases h
  | last => rfl
  | escaped c s ih => simp [List.getLast?_cons, ih h]
  | plain c s hc ih =>
    rw [opensEscape_cons hc] at h
    simp [List.getLast?_cons, ih h]

theorem opensEscape_concat (hc : c ≠ '\\') (s : Text) : opensEscape (s ++ [c]) = false := by
  apply Bool.eq_false_iff.2
  intro h
  have hl := getLast_of_opensEscape h
  rw [List.getLast?_concat] at hl
  exact hc (Option.some.inj hl)

theorem endsName_escaped : EndsName ('\\' :: c :: n) v ↔ EndsName n v := by
  simp [EndsName, name, Prod.ext_iff]

theorem endsName_cons (hc : c ≠ '\\') : EndsName (c :: n) v ↔ isNameChar c ∧ EndsName n v := by
  constructor
  · intro h
    have hn : isNameChar c := isNameChar_of_endsName h
    rw [EndsName, List.cons_append, name_cons hn hc] at h
    simp only [Prod.ext_iff, List.cons.injEq, true_and] at h
    exact ⟨hn, Prod.ext h.1 h.2⟩
  · rintro ⟨hn, h⟩
    rw [EndsName, List.cons_append, name_cons hn hc, h]

/-- Characters of names in front of a name are part of it. -/
theorem endsName_prepend (hm : ∀ c ∈ m, isNameChar c) (ho : opensEscape m = false)
    (h : EndsName n v) : EndsName (m ++ n) v := by
  induction m using escape_induction with
  | nil => exact h
  | last => cases ho
  | escaped c m ih =>
    rw [List.forall_mem_cons, List.forall_mem_cons] at hm
    exact endsName_escaped.2 (ih hm.2.2 ho)
  | plain c m hc ih =>
    rw [List.forall_mem_cons] at hm
    rw [opensEscape_cons hc] at ho
    exact (endsName_cons hc).2 ⟨hm.1, ih hm.2 ho⟩

theorem opensEscape_of_endsName (h : EndsName n v) (hv : v ≠ []) : opensEscape n = false := by
  induction n using escape_induction with
  | nil => rfl
  | last =>
    obtain ⟨c, v, rfl⟩ := List.exists_cons_of_ne_nil hv
    simp [EndsName, name, Prod.ext_iff] at h
  | escaped c n ih => exact ih (endsName_escaped.1 h)
  | plain c n hc ih =>
    rw [opensEscape_cons hc]
    exact ih ((endsName_cons hc).1 h).2

/-- A name that is cut short is a name, unless the cut is behind a backslash. -/
theorem endsName_take (h : EndsName (m ++ x) v) (hm : opensEscape m = false)
    (hz : z.head?.any isNameChar = false) : EndsName m z := by
  induction m using escape_induction with
  | nil => exact name_of_head hz
  | last => cases hm
  | escaped c m ih => exact endsName_escaped.2 (ih (endsName_escaped.1 h) hm)
  | plain c m hc ih =>
    rw [opensEscape_cons hc] at hm
    obtain ⟨hn, h⟩ := (endsName_cons hc).1 h
    exact (endsName_cons hc).2 ⟨hn, ih h hm⟩

/-- What stands in front of the name that a token ends with, and the name. -/
def Token.named? : Token → Option (Text × Text)
  | typeName n => some ([], n)
  | className n => some (['.'], n)
  | idName n => some (['#'], n)
  | pseudoClass n none => some ([':'], n)
  | pseudoElement n none => some ([':', ':'], n)
  | _ => none

theorem lexeme_of_named? (h : t.named? = some (p, n)) :
    t.lexeme = p ++ n ∧ p.any isBlank = false ∧ opensEscape p = false := by
  revert h
  fun_cases Token.named? t <;> rintro ⟨⟩ <;> exact ⟨rfl, by decide, rfl⟩

theorem endsName_of_named? (h : t.named? = some (p, n)) (hv : t.Stops v) : EndsName n v := by
  revert h
  fun_cases Token.named? t <;> rintro ⟨⟩
  · exact hv.1
  · exact hv
  · exact hv
  · exact hv.1
  · exact hv.1

/-- The mark of a class or of an id is a token if there is no name. -/
theorem reads_mark (hc : c = '.' ∨ c = '#') (b : Bool) (hv : v.head?.any isNameChar = false) :
    (Segment.token (.raw [c])).Reads b v := by
  refine reads_token ?_ ⟨?_, fun _ => hv⟩ (fun _ _ => Token.noConfusion)
  · rcases hc with rfl | rfl
    · exact Or.inl rfl
    · exact Or.inr (Or.inl rfl)
  · rcases hc with rfl | rfl <;> simp

/-- Where its name is cut short, a token is followed by a comma as it was by other text. -/
theorem exists_named_comma (h : t.named? = some (p, m ++ x)) (hf : t.Formed)
    (hm : EndsName m (',' :: z)) (hne : p ++ m ≠ []) (b : Bool) :
    ∃ g : Segment, g.text = p ++ m ∧ g.Reads b (',' :: z) := by
  have hp : (',' :: z).head? ≠ some '(' := by simp
  have hn : (',' :: z).head?.any isNameChar = false := endsName_head hm
  have hstart : m = [] ∨ m.head? = (m ++ x).head? := by cases m <;> simp
  revert h
  fun_cases Token.named? t <;> rintro ⟨⟩
  case case1 =>
    refine ⟨.token (.typeName m), rfl, reads_token ?_ ⟨hm, hp⟩ (fun _ _ => Token.noConfusion)⟩
    rcases hstart with rfl | hh
    · exact absurd rfl hne
    · exact (congrArg (Option.any _) hh).trans hf
  case case2 =>
    rcases hstart with rfl | hh
    · exact ⟨_, rfl, reads_mark (Or.inl rfl) b hn⟩
    · refine ⟨.token (.className m), rfl, reads_className ?_ hm b⟩
      exact (congrArg (Option.any isNameChar) hh).trans hf
  case case3 =>
    rcases hstart with rfl | hh
    · exact ⟨_, rfl, reads_mark (Or.inr rfl) b hn⟩
    · refine ⟨.token (.idName m), rfl, reads_token ?_ hm (fun _ _ => Token.noConfusion)⟩
      exact (congrArg (Option.any isNameChar) hh).trans hf
  case case4 =>
    refine ⟨.token (.pseudoClass m none), rfl, reads_token trivial ⟨hm, hp, ?_⟩
      (fun _ _ => Token.noConfusion)⟩
    simp
  case case5 =>
    exact ⟨.token (.pseudoElement m none), rfl, reads_token trivial ⟨hm, hp⟩
      (fun _ _ => Token.noConfusion)⟩

/-- All other tokens, if there is a text behind them, end with what is neither blank nor a
backslash. -/
theorem exists_concat_of_named? (h : t.named? = none) (hk : ∀ k w, t ≠ .combinator k w)
    (hf : t.Formed) (hs : t.Stops v) (hv : v ≠ []) :
    ∃ s c, t.lexeme = s ++ [c] ∧ isBlank c = false ∧ c ≠ '\\' := by
  cases ha : t.arguments? with
  | some a => exact ⟨a.1 ++ a.2, ')', Token.lexeme_of_arguments? ha, by decide, by decide⟩
  | none =>
    cases t with
    | universal | nesting | comma => exact ⟨[], _, rfl, by decide, by decide⟩
    | attr body => exact ⟨'[' :: body, _, rfl, by decide, by decide⟩
    | openFunction n rest => exact absurd hs hv
    | combinator k w => exact absurd rfl (hk k w)
    | raw text =>
      rcases hf with rfl | rfl | ⟨c, s, hc, rfl, -⟩ | ⟨c, rfl, -, hn, hb⟩
      · exact ⟨[], _, rfl, by decide, by decide⟩
      · exact ⟨[], _, rfl, by decide, by decide⟩
      · exact absurd (hs.1 (by simpa using hc)) hv
      · refine ⟨[], c, rfl, hb, ?_⟩
        rintro rfl
        cases hn
    | typeName | className | idName => cases h
    | function => cases ha
    | pseudoClass n more | pseudoElement n more =>
      cases more with
      | none => cases h
      | some a => cases ha

theorem opensEscape_blanks (hw : w.all isBlank) (hs : opensEscape s = false) :
    opensEscape (s ++ w) = false := by
  rw [opensEscape_append hs]
  apply Bool.eq_false_iff.2
  intro h
  have hl := List.mem_of_getLast? (getLast_of_opensEscape h)
  have hb := List.all_eq_true.1 hw _ hl
  cases hb

/-- The last backslash of a segment with some text behind it has its character. -/
theorem opensEscape_of_reads (h : g.Reads b v) (hv : v ≠ []) : opensEscape g.text = false := by
  obtain ⟨hf, hs⟩ := h.formed
  cases g with
  | blanks w => exact opensEscape_blanks (s := []) hf rfl
  | token t =>
    rw [Segment.text]
    by_cases hk : ∃ k w, t = .combinator k w
    · obtain ⟨k, w, rfl⟩ := hk
      exact opensEscape_blanks hf (by cases k <;> rfl)
    · simp only [not_exists] at hk
      cases hn : t.named? with
      | some a =>
        obtain ⟨hl, -, hp⟩ := lexeme_of_named? hn
        rw [hl, opensEscape_append hp]
        exact opensEscape_of_endsName (endsName_of_named? hn hs) hv
      | none =>
        obtain ⟨s, c, hl, -, hc⟩ := exists_concat_of_named? hn hk hf hs hv
        rw [hl]
        exact opensEscape_concat hc s

/-- A sign reads in front of a comma as it does in front of blanks. -/
theorem reads_sign (hk : k ≠ .descendant) (b : Bool) (z : Text) :
    (Segment.token (.combinator k [])).Reads b (',' :: z) := by
  obtain ⟨c, hc, ht⟩ := token_sign k hk (',' :: z)
  have hb : isBlank c = false := by
    cases k with
    | descendant => exact absurd rfl hk
    | child | nextSibling | subsequentSibling =>
      cases hc
      decide
  refine ⟨c, ',' :: z, by simp [Segment.text, hc], ?_⟩
  rw [segment_not_blank b hb, ht]
  rfl

/-- What trimming leaves of a segment is a segment in front of a comma, if it does not take the
character of a last backslash away. -/
theorem exists_reads_comma (h : g.Reads b v) (hv : v ≠ []) (ht : g.text = e ++ x)
    (hx : x.all isBlank) (he : e ≠ []) (hl : e.trimEnd = e) (ho : opensEscape e = false)
    (z : Text) : ∃ g' : Segment, g'.text = e ∧ g'.Reads b (',' :: z) := by
  obtain ⟨hf, hs⟩ := h.formed
  have hte : g.text.trimEnd = e := by rw [ht, Text.trimEnd_append hx, hl]
  cases g with
  | blanks w =>
    have hw : w.trimEnd = [] := Text.trimEnd_append (s := []) hf
    exact absurd (hte.symm.trans hw) he
  | token t =>
    by_cases hk : ∃ k w, t = .combinator k w
    · obtain ⟨k, w, rfl⟩ := hk
      have hsign : k.sign = e := by
        calc k.sign = k.sign.trimEnd := by cases k <;> decide
          _ = (k.sign ++ w).trimEnd := (Text.trimEnd_append hf).symm
          _ = e := hte
      refine ⟨.token (.combinator k []), by simp [Segment.text, hsign], reads_sign ?_ b z⟩
      rintro rfl
      exact he hsign.symm
    · simp only [not_exists] at hk
      rw [Segment.text] at ht
      cases hn : t.named? with
      | some a =>
        obtain ⟨p, n⟩ := a
        obtain ⟨hlex, hp, hop⟩ := lexeme_of_named? hn
        -- No blank is in front of the name, so that the cut is in the name or behind it.
        obtain ⟨m, rfl, rfl⟩ : ∃ m, e = p ++ m ∧ n = m ++ x := by
          rcases List.append_eq_append_iff.1 (hlex.symm.trans ht) with ⟨m, rfl, rfl⟩ | ⟨q, rfl, rfl⟩
          · exact ⟨m, rfl, rfl⟩
          · have hq : q = [] := by
              apply List.eq_nil_iff_forall_not_mem.2
              intro c hc
              have hb := List.all_eq_true.1 hx c (List.mem_append_left n hc)
              exact List.any_eq_false.1 hp c (List.mem_append_right e hc) hb
            exact ⟨[], by simp [hq], by simp [hq]⟩
        rw [opensEscape_append hop] at ho
        have hm : EndsName m (',' :: z) :=
          endsName_take (endsName_of_named? hn hs) ho (by simp [isNameChar])
        exact exists_named_comma hn hf hm he b
      | none =>
        obtain ⟨s, c, hlex, hc, -⟩ := exists_concat_of_named? hn hk hf hs hv
        obtain ⟨y, -, hy⟩ := Text.exists_of_append_blanks hx hc (ht.symm.trans hlex)
        obtain ⟨rfl, rfl⟩ := List.append_eq_nil_iff.1 hy.symm
        refine ⟨.token t, ht.trans (List.append_nil e), reads_token hf ?_ hk⟩
        exact Token.Stops.of_boundary hs hv (by simp [isNameChar]) (by simp) (by simp)

end ComponentSheet.Selector
