import ComponentSheet.Proofs.Selector.Listed
import ComponentSheet.Proofs.Selector.Placed

/-! A comma behind an entry that is closed parts the text: both sides are cut as they are alone. -/
namespace ComponentSheet.Selector

open Reading

variable {b : Bool} {e n s z : Text} {t : Token} {g : Segment} {l m : List Segment}
  {q : Text} {qs : List Text}

/-- Whether the token can be one of an entry: it is no comma, and does not take in all the text
behind it for want of a bracket. -/
def Token.isClosed : Token → Bool
  | comma | openFunction .. => false
  | raw text => text.head?.all fun c => c ≠ '[' && c ≠ ':'
  | _ => true

theorem endsName_comma (h : EndsName n []) (ho : opensEscape n = false) (z : Text) :
    EndsName n (',' :: z) :=
  endsName_take (x := []) (by rwa [List.append_nil]) ho (by simp [isNameChar])

theorem Token.Stops.comma (h : t.Stops []) (hc : t.isClosed) (ho : opensEscape t.lexeme = false)
    (z : Text) : t.Stops (',' :: z) := by
  cases hn : t.named? with
  | some a =>
    obtain ⟨hl, -, hp⟩ := lexeme_of_named? hn
    rw [hl, opensEscape_append hp] at ho
    have he := endsName_comma (endsName_of_named? hn h) ho z
    revert hn
    fun_cases Token.named? t <;> rintro ⟨⟩
    case case1 | case5 => exact ⟨he, by simp⟩
    case case2 | case3 => exact he
    case case4 => exact ⟨he, by simp, by simp⟩
  | none =>
    cases t with
    | raw text =>
      refine ⟨fun ht => ?_, fun _ => by simp [isNameChar]⟩
      rcases ht with ht | ht <;> simp [isClosed, ht] at hc
    | openFunction => cases hc
    | pseudoClass n a | pseudoElement n a =>
      cases a with
      | none => cases hn
      | some a => trivial
    | typeName | className | idName => cases hn
    | _ => trivial

/-- A segment at the end of a text is followed by a comma as well, unless it ends with a blank or
takes the comma in. -/
theorem Segment.Reads.comma (h : g.Reads b []) (hl : ∀ c ∈ g.text.getLast?, isBlank c = false)
    (hc : ∀ t, g = .token t → t.isClosed) (ho : opensEscape g.text = false) (z : Text) :
    g.Reads b (',' :: z) := by
  obtain ⟨hf, hs⟩ := h.formed
  cases g with
  | blanks w => exact absurd (Text.eq_nil_of_blanks (s := []) hf hl) h.text_ne_nil
  | token t =>
    by_cases hk : ∃ k w, t = .combinator k w
    · obtain ⟨k, w, rfl⟩ := hk
      obtain rfl : w = [] := Text.eq_nil_of_blanks hf hl
      refine reads_sign ?_ b z
      rintro rfl
      exact h.text_ne_nil rfl
    · simp only [not_exists] at hk
      exact reads_token hf (Token.Stops.comma hs (hc t rfl) ho z) hk

/-- In front of a segment each backslash has its character. -/
theorem opensEscape_textOf (h : segmentsFrom b s = l ++ g :: m) :
    opensEscape (textOf l) = false := by
  induction l generalizing b s with
  | nil => rfl
  | cons g' l ih =>
    have hrest : segmentsFrom (g'.continues b) (textOf (l ++ g :: m)) = l ++ g :: m :=
      segmentsFrom_textOf (l := [g']) h
    have hne : textOf (l ++ g :: m) ≠ [] := by
      intro hn
      rw [hn, segmentsFrom] at hrest
      simp at hrest
    rw [textOf_cons,
      opensEscape_append (opensEscape_of_reads (reads_of_segmentsFrom (l := []) h) hne)]
    exact ih hrest

/-- An entry of a selector list that is the same whatever stands behind its comma. -/
structure ClosedEntry (e : Text) : Prop where
  ne_nil : e ≠ []
  trim_eq : e.trim = e
  isClosed : ∀ p ∈ placed e, p.token.isClosed
  backslashes : finalBackslashes e % 2 = 0

theorem closedEntry_iff (e : Text) : ClosedEntry e ↔
    e ≠ [] ∧ e.trim = e ∧ (∀ p ∈ placed e, p.token.isClosed) ∧ finalBackslashes e % 2 = 0 :=
  ⟨fun ⟨hn, ht, hc, hb⟩ => ⟨hn, ht, hc, hb⟩, fun ⟨hn, ht, hc, hb⟩ => ⟨hn, ht, hc, hb⟩⟩

instance (e : Text) : Decidable (ClosedEntry e) :=
  decidable_of_iff' _ (closedEntry_iff e)

theorem ClosedEntry.isClosed_of_mem (h : ClosedEntry e) (ht : .token t ∈ segments e) :
    t.isClosed := by
  obtain ⟨l, m, hl⟩ := List.append_of_mem ht
  obtain ⟨p, hp, rfl, -⟩ := exists_mem_placed hl
  exact h.isClosed p hp

theorem ClosedEntry.comma_not_mem (h : ClosedEntry e) : .token .comma ∉ segments e := fun hm => by
  cases h.isClosed_of_mem hm

/-- The last segment of a closed entry is read in front of a comma as well. -/
theorem ClosedEntry.reads_last (h : ClosedEntry e) (hl : segments e = l ++ [g]) (z : Text) :
    g.Reads (continuesAfter false l) (',' :: z) := by
  have he : textOf l ++ g.text = e := by
    rw [← textOf_segments e, hl, textOf_append, textOf_cons]
    simp [textOf]
  have hr : g.Reads (continuesAfter false l) [] := reads_of_segmentsFrom hl
  refine hr.comma ?_ ?_ ?_ z
  · intro c hc
    refine (Text.trim_eq_self_iff.1 h.trim_eq).2 c ?_
    rw [← he, List.getLast?_append, hc]
    rfl
  · rintro t rfl
    exact h.isClosed_of_mem (by simp [hl])
  · rw [← opensEscape_append (opensEscape_textOf hl), he]
    exact (opensEscape_eq_false_iff e).2 h.backslashes

theorem ClosedEntry.segments_comma (h : ClosedEntry e) (z : Text) :
    segments (e ++ ',' :: z) = segments e ++ .token .comma :: segments z := by
  have hcomma (b : Bool) : segmentsFrom b (',' :: z) = .token .comma :: segments z :=
    segmentsFrom_of_reads (reads_comma b z)
  rw [segments, segmentsFrom_append_of_reads false e fun l g hl => h.reads_last hl z, hcomma]
  rfl

theorem ClosedEntry.placed_comma (h : ClosedEntry e) (z : Text) :
    placed (e ++ ',' :: z) = placed e ++ ⟨.comma, e.byteLength, opensBehind (placed e)⟩ ::
      (placed z).map (.shifted (e.byteLength + 1)) := by
  rw [placed, h.segments_comma, placedFrom_append, textOf_segments, placedFrom, placed,
    opensBehind_placedFrom, placed, ← placedFrom_shifted, Nat.zero_add, Nat.zero_add]
  rfl

theorem pieces_append (h : .token .comma ∉ l) (hm : pieces m = q :: qs) :
    pieces (l ++ m) = (textOf l ++ q) :: qs := by
  induction l with
  | nil => exact hm
  | cons g l ih =>
    rw [List.mem_cons, not_or] at h
    rw [List.cons_append, pieces_cons (fun hg => h.1 hg.symm) (ih h.2), textOf_cons,
      List.append_assoc]

theorem ClosedEntry.entries_eq (h : ClosedEntry e) : entries e = [e] := by
  have hp := pieces_append h.comma_not_mem (m := []) rfl
  rw [List.append_nil, List.append_nil, textOf_segments] at hp
  simp [entries, hp, h.trim_eq, h.ne_nil]

theorem ClosedEntry.entries_comma (h : ClosedEntry e) (z : Text) :
    entries (e ++ ',' :: z) = e :: entries z := by
  have hp := pieces_append h.comma_not_mem (m := .token .comma :: segments z) rfl
  rw [← h.segments_comma, List.append_nil, textOf_segments] at hp
  simp [entries, hp, h.trim_eq, h.ne_nil]

theorem entries_ofEntries_closed {l : List Text} (h : ∀ e ∈ l, ClosedEntry e) :
    entries (ofEntries l) = l := by
  induction l with
  | nil => decide +kernel
  | cons e l ih =>
    rw [List.forall_mem_cons] at h
    cases l with
    | nil => rw [ofEntries_singleton, h.1.entries_eq]
    | cons f l => rw [ofEntries_cons_cons, h.1.entries_comma, entries_line, ih h.2]

/-- Behind a closed entry a comma starts anew: the tokens of the entry, a comma, and the tokens of
the rest in their new places. So a list of closed entries is read again as it was written. -/
theorem placed_comma_and_entries_ofEntries :
    (∀ e, ClosedEntry e → ∀ z, placed (e ++ ',' :: z) =
      placed e ++ ⟨.comma, e.byteLength, opensBehind (placed e)⟩ ::
        (placed z).map (.shifted (e.byteLength + 1))) ∧
      ∀ l : List Text, (∀ e ∈ l, ClosedEntry e) → entries (ofEntries l) = l :=
  ⟨fun _ => ClosedEntry.placed_comma, fun _ => entries_ofEntries_closed⟩

/-- Closed entries may end with a sign, with an escaped backslash or with a lone mark, and hold
commas in strings and parentheses. -/
theorem placed_comma_and_entries_ofEntries_marks :
    let l : List Text := [".a >".toList, ":is(.b, c) .d\\\\".toList, "[x=',']::".toList, "#".toList]
    (∀ e ∈ l, ClosedEntry e) ∧ entries (ofEntries l) = l ∧
      ∀ e ∈ l, placed (e ++ ",.b > c,".toList) =
        placed e ++ ⟨.comma, e.byteLength, opensBehind (placed e)⟩ ::
          (placed ".b > c,".toList).map (.shifted (e.byteLength + 1)) := by
  intro l
  have h : ∀ e ∈ l, ClosedEntry e := by decide +kernel
  exact ⟨h, placed_comma_and_entries_ofEntries.2 l h, fun e he =>
    placed_comma_and_entries_ofEntries.1 e (h e he) ".b > c,".toList⟩

end ComponentSheet.Selector
