import ComponentSheet.Proofs.Macro.Shown
import ComponentSheet.Proofs.Selector.Rereading
import ComponentSheet.Proofs.Text.Trimmed

/-! The calls of a text in their order. They are the same with blanks around the text. -/
namespace ComponentSheet.Macro

open Selector

variable {kinds : List Kind} {b : Bool} {n rest s u v w : Text} {g g' : Segment}

/-- What a part calls: the kind, and the parameters if they are closed. -/
def Part.called? : Part → Option (Kind × Option Text)
  | plain _ => none
  | call k params => some (k, some params)
  | openCall k _ => some (k, none)

/-- The calls of `kinds` in a text. -/
def calls (kinds : List Kind) (s : Text) : List (Kind × Option Text) :=
  (parts kinds s).filterMap Part.called?

/-- The calls in a segment. -/
def callsIn (kinds : List Kind) (g : Segment) : List (Kind × Option Text) :=
  (shownIn kinds g).filterMap Part.called?

theorem called_letters (s : Text) : (letters s).filterMap Part.called? = [] := by
  induction s with
  | nil => rfl
  | cons c s ih => exact ih

theorem called_spelled (l : List Part) :
    (spelled l).filterMap Part.called? = l.filterMap Part.called? := by
  induction l with
  | nil => rfl
  | cons p l ih =>
    rw [spelled_cons, List.filterMap_append, ih]
    cases p with
    | plain t => rw [Part.spelled, called_letters, List.nil_append]; rfl
    | call | openCall => rfl

theorem calls_eq (kinds : List Kind) (s : Text) :
    calls kinds s = (shown kinds s).filterMap Part.called? :=
  (called_spelled _).symm

theorem calls_nil (kinds : List Kind) : calls kinds [] = [] := by
  rw [calls_eq, shown_nil]
  rfl

theorem calls_blanks (hu : u.all isBlank) (s : Text) : calls kinds (u ++ s) = calls kinds s := by
  rw [calls_eq, shown_blanks hu, List.filterMap_append, called_letters, calls_eq]
  rfl

theorem calls_segment (hf : g.Formed) (hv : g.Stops v) :
    calls kinds (g.text ++ v) = callsIn kinds g ++ calls kinds v := by
  rw [calls_eq, shown_segment hf hv, List.filterMap_append, ← calls_eq, callsIn]

theorem calls_append (h : EndsBefore u v) :
    calls kinds (u ++ v) = calls kinds u ++ calls kinds v := by
  rw [calls_eq, shown_append h, List.filterMap_append, ← calls_eq, ← calls_eq]

theorem mem_shown_of_mem_calls {k : Kind} (h : (k, some s) ∈ calls kinds u) :
    .call k s ∈ shown kinds u := by
  rw [calls_eq, List.mem_filterMap] at h
  obtain ⟨q, hq, hc⟩ := h
  cases q with
  | plain | openCall => cases hc
  | call =>
    cases hc
    exact hq

theorem calls_eq_flatMap (kinds : List Kind) (b : Bool) (s : Text) :
    calls kinds s = (segmentsFrom b s).flatMap (callsIn kinds) := by
  rw [calls_eq, shown_eq_flatMap kinds b, List.filterMap_flatMap]
  rfl

theorem callsIn_arguments {o a : Text} (hp : callPart? kinds g = none)
    (ha : arguments? g = some (o, a)) : callsIn kinds g = calls kinds a := by
  rw [callsIn, shownIn, hp, ha]
  simp [called_letters, calls_eq]

theorem reads_of_arguments? {p : Text × Text} (hf : g.Formed) (ha : arguments? g = some p)
    (b : Bool) (v : Text) : g.Reads b v := by
  obtain ⟨o, a⟩ := p
  cases g with
  | blanks => cases ha
  | token t =>
    refine reads_token hf (Token.stops_of_arguments? ha v) ?_
    rintro k u rfl
    cases ha

/-- Blanks close no parenthesis. -/
theorem parenthesized_blanks (hw : w.all isBlank) :
    Reading.parenthesized (rest ++ w) = none ↔ Reading.parenthesized rest = none := by
  simp only [Option.eq_none_iff_forall_ne_some]
  constructor
  · rintro h ⟨a, r⟩ hr
    obtain ⟨rfl, ha⟩ := Reading.parenthesized_eq_some_iff.1 hr
    exact h (a, r ++ w) (Reading.parenthesized_eq_some_iff.2 ⟨by simp, ha⟩)
  · rintro h ⟨a, r⟩ hr
    obtain ⟨he, ha⟩ := Reading.parenthesized_eq_some_iff.1 hr
    obtain ⟨x, hx, -⟩ := Text.exists_of_append_blanks hw (by decide) he
    exact h (a, x) (Reading.parenthesized_eq_some_iff.2 ⟨hx, ha⟩)

theorem openFunction_reads (hf : (Token.openFunction n rest).Formed) (b : Bool) :
    (Segment.token (.openFunction n rest)).Reads b [] :=
  reads_token hf rfl (fun _ _ => Token.noConfusion)

/-- The name of a function without a closing parenthesis. -/
def openName? : Segment → Option Text
  | .token (.openFunction n _) => some n
  | _ => none

theorem callsIn_of_arguments?_eq_none (h : arguments? g = none) :
    callsIn kinds g = ((openName? g).bind (kindAmong? kinds)).toList.map fun k => (k, none) := by
  cases g with
  | blanks w => exact called_letters w
  | token t =>
    cases t with
    | openFunction n rest =>
      have hc : callPart? kinds (.token (.openFunction n rest)) =
          (kindAmong? kinds n).map (.openCall · rest) := rfl
      rw [callsIn, shownIn, hc, openName?, Option.bind_some]
      cases kindAmong? kinds n with
      | none => exact called_letters _
      | some k => rfl
    | function n a => cases h
    | pseudoClass n a =>
      cases a with
      | none => exact called_letters _
      | some a => cases h
    | pseudoElement n a =>
      cases a with
      | none => exact called_letters _
      | some a => cases h
    | _ => exact called_letters _

theorem openName?_eq_some :
    openName? g = some n ↔ ∃ rest, g = .token (.openFunction n rest) := by
  constructor
  · intro h
    unfold openName? at h
    split at h
    · rename_i rest
      cases h
      exact ⟨rest, rfl⟩
    · cases h
  · rintro ⟨rest, rfl⟩
    rfl

/-- A function that is open at the end of a text is open with blanks behind the text, too. -/
theorem openName?_blanks (hg : g.Reads b []) (hg' : g'.Reads b v) (ht : g'.text ++ v = g.text ++ w)
    (hw : w.all isBlank) : openName? g' = openName? g := by
  cases hn' : openName? g' with
  | some n =>
    obtain ⟨rest, rfl⟩ := openName?_eq_some.1 hn'
    obtain ⟨⟨hs, he, hp⟩, rfl⟩ := hg'.formed
    rw [Segment.text, Token.lexeme, List.append_nil] at ht
    obtain ⟨x, hx, rfl⟩ := Text.exists_of_append_blanks hw (by decide) ht.symm
    have ho : (Segment.token (.openFunction n x)).Reads b [] :=
      openFunction_reads ⟨hs, he, (parenthesized_blanks hw).1 hp⟩ b
    obtain ⟨rfl, -⟩ := reads_unique ho hg (by rw [hx]; rfl)
    rfl
  | none =>
    cases hn : openName? g with
    | none => rfl
    | some n =>
      obtain ⟨rest, rfl⟩ := openName?_eq_some.1 hn
      obtain ⟨⟨hs, he, hp⟩, -⟩ := hg.formed
      have ho : (Segment.token (.openFunction n (rest ++ w))).Reads b [] :=
        openFunction_reads ⟨hs, he, (parenthesized_blanks hw).2 hp⟩ b
      obtain ⟨rfl, -⟩ := reads_unique ho hg' (by rw [ht]; simp [Segment.text])
      cases hn'

theorem calls_of_blanks (hw : w.all isBlank) : calls kinds w = [] := by
  calc calls kinds w = calls kinds (w ++ []) := by rw [List.append_nil]
    _ = calls kinds [] := calls_blanks hw []
    _ = [] := calls_nil kinds

/-- What is read at the end of a text calls the same with blanks behind the text. -/
theorem calls_last (hg : g.Reads b []) (hw : w.all isBlank) :
    calls kinds (g.text ++ w) = callsIn kinds g := by
  have hf : g.Formed := hg.formed.1
  cases ha : arguments? g with
  | some p =>
    have hs : g.Stops w := (reads_of_arguments? hf ha b w).formed.2
    rw [calls_segment hf hs, calls_of_blanks hw, List.append_nil]
  | none =>
    obtain ⟨c, s, hs⟩ := List.exists_cons_of_ne_nil
      (List.append_ne_nil_of_left_ne_nil hg.text_ne_nil w)
    have hg' := reads_segment b c s
    have ht := (Reading.segment_append b c s).trans hs.symm
    generalize (Reading.segment b c s).1 = g' at hg' ht
    generalize (Reading.segment b c s).2 = v at hg' ht
    obtain ⟨u, hu, rfl⟩ := exists_of_reads hg hg' (List.append_nil _).symm ht
    rw [List.all_append, Bool.and_eq_true] at hw
    have ha' : arguments? g' = none := by
      refine Option.eq_none_iff_forall_ne_some.2 fun p hp => ?_
      -- The parenthesis at its end is not blank, so that no blanks are taken in.
      obtain ⟨x, hx, hn⟩ := Text.exists_of_append_blanks hw.1 (by decide)
        (hu.symm.trans (text_of_arguments? hp))
      obtain ⟨rfl, rfl⟩ := List.append_eq_nil_iff.1 hn.symm
      obtain ⟨rfl, -⟩ := reads_unique (reads_of_arguments? hg'.formed.1 hp b []) hg
        (by rw [hu, List.append_nil])
      cases ha.symm.trans hp
    have hw' : (u ++ v).all isBlank := by rw [List.all_append, hw.1, hw.2, Bool.and_self]
    rw [← ht, calls_segment hg'.formed.1 hg'.formed.2, calls_of_blanks hw.2, List.append_nil,
      callsIn_of_arguments?_eq_none ha', callsIn_of_arguments?_eq_none ha,
      openName?_blanks hg hg' ht hw']

theorem calls_append_blanks (s : Text) (hw : w.all isBlank) :
    calls kinds (s ++ w) = calls kinds s := by
  fun_induction segmentsFrom false s with
  | case1 => rw [List.nil_append, calls_of_blanks hw, calls_nil]
  | case2 b c s r ih =>
    have hg : r.1.Reads b r.2 := reads_segment b c s
    have hs : r.1.text ++ r.2 = c :: s := Reading.segment_append b c s
    obtain ⟨hf, hv⟩ := hg.formed
    rw [← hs, List.append_assoc, calls_segment hf hv, ← ih]
    cases hr : r.2 with
    | nil =>
      rw [hr] at hg
      rw [List.nil_append, calls_last hg hw, calls_of_blanks hw, List.append_nil]
    | cons d x =>
      rw [hr] at hv
      exact calls_segment hf (hv.of_head rfl)

theorem calls_trim (kinds : List Kind) (s : Text) : calls kinds s.trim = calls kinds s := by
  obtain ⟨u, v, hs, hu, hv⟩ := s.exists_eq_trim
  conv => rhs; rw [hs]
  rw [calls_append_blanks _ hv, calls_blanks hu]

end ComponentSheet.Macro
