import ComponentSheet.Proofs.Sheet.RoundTrip
import Mathlib.Control.Monad.Basic

/-! What is read of a text can be read again, unless a prelude opens a comment or leaves a bracket
open. -/
namespace ComponentSheet

open Event

variable {c : Char} {s t u v mark name params value : Text} {d e : Nat} {p : Place} {quote : Quote}
  {pos : Position} {ending : Ending} {x : Declaration} {ev : Event} {important : Bool}

namespace Place

theorem outside_after_trim (h : (outside d).after s = outside e) :
    (outside d).after s.trim = outside e := by
  obtain ⟨u, v, hs, hu, hv⟩ := Text.exists_eq_trim s
  rw [hs, after_append, after_append, outside_after_blanks d hu] at h
  rwa [after_eq_of_isSettled hv (h ▸ rfl)] at h

/-- Blanks that lead on to a place outside strings do not lead away. -/
theorem after_blanks_of_outside (hp : p.isStill) (hu : u.all isBlank)
    (h : (p.after u).after t = outside d) : p.after u = p := by
  induction u with
  | nil => rfl
  | cons c u ih =>
    rw [List.all_cons, Bool.and_eq_true] at hu
    have hnext : p.next c = p := by
      cases p with
      | outside e => exact outside_next_blank e hu.1
      | string quote e =>
        rw [after_cons, string_next_blank quote e hu.1] at h
        rw [string_next_blank quote e hu.1]
        split at h
        · rw [ended_after, ended_after] at h
          cases h
        · rename_i hn
          rw [if_neg hn]
      | escape | ended => cases hp
    rw [after_cons, hnext] at h ⊢
    exact ih hu.2 h

theorem string_next_colon (quote : Quote) (d : Nat) :
    (string quote d).next ':' = string quote d := by
  cases quote <;> rfl

/-- Where a colon leads to does not depend on the blanks in front of it. -/
theorem next_colon (hu : u.all isBlank) (h : ((p.after u).next ':').after t = outside d) :
    (p.after u).next ':' = p.next ':' ∧ (p.next ':').isStill := by
  cases p with
  | outside e =>
    rw [outside_after_blanks e hu]
    exact ⟨rfl, by rw [next_outside (by decide) (by simp)]; rfl⟩
  | string quote e =>
    rw [after_blanks_of_outside (t := ':' :: t) rfl hu h, string_next_colon]
    exact ⟨rfl, rfl⟩
  | escape quote e =>
    cases u with
    | nil => exact ⟨rfl, rfl⟩
    | cons c u =>
      rw [List.all_cons, Bool.and_eq_true] at hu
      have hstring : (string quote e).after u = string quote e :=
        after_blanks_of_outside (t := ':' :: t) rfl hu.2 h
      rw [after_cons, show (escape quote e).next c = string quote e from rfl, hstring,
        string_next_colon]
      exact ⟨rfl, rfl⟩
  | ended =>
    rw [ended_after, show ended.next ':' = ended from rfl, ended_after] at h
    cases h

theorem after_colon (hu : u.all isBlank) (hv : v.all isBlank)
    (h : p.after (u ++ ':' :: v ++ t) = outside d) : p.after (':' :: ' ' :: t) = outside d := by
  rw [after_append, after_append, after_cons] at h
  obtain ⟨hnext, hstill⟩ := next_colon hu ((after_append (t := t)).trans h)
  rw [hnext] at h
  rw [after_blanks_of_outside hstill hv h] at h
  rw [after_cons, after_cons, next_blank hstill (by decide) (by decide), h]

theorem isOutside_after (hp : p.isOutside = false) (h : ∀ c ∈ s, Quote.ofChar? c = none) :
    (p.after s).isOutside = false := by
  induction s generalizing p with
  | nil => exact hp
  | cons c s ih =>
    rw [List.forall_mem_cons] at h
    refine ih ?_ h.2
    cases p with
    | outside d => cases hp
    | string quote d =>
      have hc : c ≠ quote.char := by
        rintro rfl
        rw [Quote.ofChar?_eq_some_iff.2 rfl] at h
        cases h.1
      simp only [next, hc, if_false]
      split
      · rfl
      · split <;> rfl
    | escape | ended => rfl

theorem outside_after_calm (h : ∀ c ∈ s, (outside d).next c = outside d) :
    (outside d).after s = outside d := by
  induction s with
  | nil => rfl
  | cons c s ih =>
    rw [List.forall_mem_cons] at h
    rw [after_cons, h.1, ih h.2]

end Place

namespace Declaration

open Text

theorem toLower_mem_of_mark (h : equalsIgnoringCase (trim mark) "important".toList)
    (hc : c ∈ mark) : isBlank c ∨ c.toLower ∈ "important".toList := by
  obtain ⟨u, v, hs, hu, hv⟩ := exists_eq_trim mark
  rw [hs, List.mem_append, List.mem_append] at hc
  rcases hc with (hc | hc) | hc
  · exact .inl (List.all_eq_true.1 hu c hc)
  · have hmap : mark.trim.map Char.toLower = "important".toList.map Char.toLower := by
      simpa [equalsIgnoringCase] using h
    have hlower : "important".toList.map Char.toLower = "important".toList := by decide
    right
    rw [← hlower, ← hmap]
    exact List.mem_map_of_mem hc
  · exact .inl (List.all_eq_true.1 hv c hc)

theorem ne_of_mark (h : equalsIgnoringCase (trim mark) "important".toList) (hm : c ∈ mark)
    {e : Char} (hb : isBlank e = false) (he : e.toLower ∉ "important".toList) : c ≠ e := by
  rintro rfl
  rcases toLower_mem_of_mark h hm with hc | hc
  · simp [hb] at hc
  · exact he hc

theorem ofChar?_of_mark (h : equalsIgnoringCase (trim mark) "important".toList) (hm : c ∈ mark) :
    Quote.ofChar? c = none := by
  rw [Quote.ofChar?_eq_none_iff, not_or]
  exact ⟨ne_of_mark h hm (by decide) (by decide), ne_of_mark h hm (by decide) (by decide)⟩

theorem next_of_mark (h : equalsIgnoringCase (trim mark) "important".toList) (hm : c ∈ mark)
    (d : Nat) : (Place.outside d).next c = .outside d := by
  have hne : ∀ e, isBlank e = false → e.toLower ∉ "important".toList → c ≠ e :=
    fun e => ne_of_mark h hm
  have hdepth : depthAfter c d = d := by
    simp [depthAfter, hne '(' (by decide) (by decide), hne '[' (by decide) (by decide),
      hne ')' (by decide) (by decide), hne ']' (by decide) (by decide)]
  rw [Place.next_outside (ofChar?_of_mark h hm), hdepth]
  rintro ⟨-, hc | hc | hc⟩
  · exact hne ';' (by decide) (by decide) hc
  · exact hne '{' (by decide) (by decide) hc
  · exact hne '}' (by decide) (by decide) hc

/-- A mark of importance stands outside strings, and so it does behind one blank. -/
theorem after_mark (hu : u.all isBlank) (hm : equalsIgnoringCase (trim mark) "important".toList)
    (h : p.after (u ++ '!' :: mark) = .outside d) :
    p.after (' ' :: '!' :: "important".toList) = .outside d := by
  have hbang : ∀ e, (Place.outside e).next '!' = .outside e := fun e => by
    rw [Place.next_outside (by decide) (by simp)]
    rfl
  rw [Place.after_append, Place.after_cons] at h
  obtain ⟨e, he⟩ : ∃ e, p.after u = .outside e := by
    cases hq : (p.after u).isOutside with
    | true =>
      cases hp : p.after u with
      | outside e => exact ⟨e, rfl⟩
      | string | escape | ended => simp [hp, Place.isOutside] at hq
    | false =>
      have hquote : ∀ c ∈ '!' :: mark, Quote.ofChar? c = none := by
        rw [List.forall_mem_cons]
        exact ⟨by decide, fun c hc => ofChar?_of_mark hm hc⟩
      have hnot := Place.isOutside_after hq hquote
      rw [Place.after_cons, h] at hnot
      cases hnot
  have hp : p = .outside e := by
    rw [← he]
    exact (Place.after_eq_of_isSettled hu (by rw [he]; rfl)).symm
  rw [he, hbang, Place.outside_after_calm fun c hc => next_of_mark hm hc e] at h
  have himportant : equalsIgnoringCase (trim "important".toList) "important".toList := by decide
  rw [hp, Place.after_cons, Place.outside_next_blank e (by decide), Place.after_cons, hbang,
    Place.outside_after_calm fun c hc => next_of_mark himportant hc e, h]

theorem exists_of_endsImportant (h : endsImportant s) :
    ∃ kept mark, s = kept ++ '!' :: mark ∧ equalsIgnoringCase (trim mark) "important".toList := by
  induction s with
  | nil => cases h
  | cons c s ih =>
    rw [endsImportant, Bool.or_eq_true, Bool.and_eq_true, beq_iff_eq] at h
    rcases h with ⟨rfl, h⟩ | h
    · exact ⟨[], s, rfl, h⟩
    · obtain ⟨kept, mark, rfl, hm⟩ := ih h
      exact ⟨c :: kept, mark, rfl, hm⟩

/-- A value is read as it stands, or without a mark of importance and the blanks in front of it. -/
theorem splitImportant_cases (h : splitImportant s = (value, important)) :
    (important = false ∧ value = s ∧ endsImportant s = false) ∨
      (important = true ∧ (∀ c ∈ value.getLast?, isBlank c = false) ∧
        ∃ u mark, s = value ++ (u ++ '!' :: mark) ∧ u.all isBlank ∧
          equalsIgnoringCase (trim mark) "important".toList) := by
  have hends : ∀ kept mark : Text, s = kept ++ '!' :: mark →
      equalsIgnoringCase (trim mark) "important".toList →
        cutAt? '!' s.reverse = some (mark.reverse, kept.reverse) := by
    rintro kept mark rfl hm
    rw [List.reverse_append, List.reverse_cons, List.append_assoc]
    refine cutAt?_append fun hc => ?_
    exact ne_of_mark hm (List.mem_reverse.1 hc) (by decide) (by decide) rfl
  rw [splitImportant] at h
  split at h
  · rename_i mark kept hcut
    have hs : s = kept.reverse ++ '!' :: mark.reverse := by
      simpa using congrArg List.reverse (eq_of_cutAt? hcut)
    split at h
    · rename_i hm
      cases h
      obtain ⟨u, hu, hub⟩ := exists_eq_trimEnd kept.reverse
      refine .inr ⟨rfl, getLast_trimEnd _, u, mark.reverse, ?_, hub, hm⟩
      rw [← List.append_assoc, ← hu, ← hs]
    · rename_i hm
      cases h
      refine .inl ⟨rfl, rfl, Bool.eq_false_iff.2 fun he => ?_⟩
      obtain ⟨kept', mark', hs', hm'⟩ := exists_of_endsImportant he
      obtain ⟨rfl, -⟩ := Prod.mk.inj (Option.some.inj (hcut.symm.trans (hends _ _ hs' hm')))
      rw [List.reverse_reverse] at hm
      exact hm hm'
  · rename_i hcut
    cases h
    refine .inl ⟨rfl, rfl, Bool.eq_false_iff.2 fun he => ?_⟩
    obtain ⟨kept', mark', hs', hm'⟩ := exists_of_endsImportant he
    rw [hends _ _ hs' hm'] at hcut
    cases hcut

theorem ofText?_eq_some (h : ofText? s = some x) :
    ∃ property value : Text, s = property ++ ':' :: value ∧ ':' ∉ property ∧
      property.trim ≠ [] ∧ x.property = property.trim ∧
      splitImportant value.trim = (x.value, x.important) := by
  rw [ofText?] at h
  split at h
  · rename_i property value hcut
    split at h
    · cases h
    · rename_i hne
      cases h
      exact ⟨property, value, eq_of_cutAt? hcut, notMem_of_cutAt? hcut, hne, rfl, rfl⟩
  · cases h

theorem head_property (h : ofText? s = some x) (hs : s.trim = s) :
    x.property.head? = s.head? := by
  obtain ⟨property, value, rfl, -, hne, hp, -⟩ := ofText?_eq_some h
  have hstart : property.trimStart = property := by
    refine trimStart_eq_self fun c hc => (trim_eq_self_iff.1 hs).1 c ?_
    rw [List.head?_append, hc]
    rfl
  obtain ⟨u, c, t, hu, -, -, hhead, hc⟩ := exists_eq_head_trim hne
  rw [hstart] at hc
  rw [hp, hhead, List.head?_append, hc]
  rfl

theorem formed_of_ofText? (h : ofText? s = some x) (hs : s.trim = s) (ha : s.head? ≠ some '@') :
    x.Formed := by
  have hhead := head_property h hs
  obtain ⟨property, value, rfl, hc, hne, hp, hv⟩ := ofText?_eq_some h
  refine ⟨?_, hp ▸ hne, ?_, hhead ▸ ha, ?_, ?_⟩
  · rw [hp, trim_trim]
  · exact fun hm => hc (mem_of_mem_trim (hp ▸ hm))
  · rcases splitImportant_cases hv with ⟨-, hx, -⟩ | ⟨-, hlast, u, mark, hs', -, -⟩
    · rw [hx, trim_trim]
    · rw [trim_eq_self_iff]
      refine ⟨fun c hc => ?_, hlast⟩
      refine (trim_eq_self_iff.1 (trim_trim value)).1 c ?_
      rw [hs', List.head?_append, hc]
      rfl
  · intro hi
    rcases splitImportant_cases hv with ⟨-, hx, he⟩ | ⟨ht, -⟩
    · rw [hx, he]
    · rw [ht] at hi
      cases hi

/-- The printed form of a declaration leaves its strings closed as the text it was read of did. -/
theorem after_text (h : ofText? s = some x) (hs : (Place.outside d).after s = .outside e) :
    (Place.outside d).after x.text.trim = .outside e := by
  obtain ⟨property, value, rfl, -, -, hp, hv⟩ := ofText?_eq_some h
  obtain ⟨u₁, v₁, hp', hu₁, hv₁⟩ := exists_eq_trim property
  obtain ⟨u₂, v₂, hv', hu₂, hv₂⟩ := exists_eq_trim value
  have hsplit : property ++ ':' :: value =
      u₁ ++ (x.property ++ (v₁ ++ ':' :: u₂ ++ (value.trim ++ v₂))) := by
    calc property ++ ':' :: value
        = u₁ ++ property.trim ++ v₁ ++ ':' :: (u₂ ++ value.trim ++ v₂) := by rw [← hp', ← hv']
      _ = u₁ ++ (x.property ++ (v₁ ++ ':' :: u₂ ++ (value.trim ++ v₂))) := by simp [hp]
  rw [hsplit, Place.after_append, Place.outside_after_blanks d hu₁, Place.after_append] at hs
  generalize hq : (Place.outside d).after x.property = p at hs
  have hvalue : p.after (':' :: ' ' :: value.trim) = .outside e := by
    have hcolon := Place.after_colon hv₁ hu₂ hs
    rw [← List.cons_append, ← List.cons_append, Place.after_append] at hcolon
    rwa [Place.after_eq_of_isSettled hv₂ (hcolon ▸ rfl)] at hcolon
  refine Place.outside_after_trim ?_
  rw [text_eq, List.append_assoc, Place.after_append, hq, Place.after_append]
  rcases splitImportant_cases hv with ⟨hi, hx, -⟩ | ⟨hi, -, u, mark, hx, hu, hm⟩
  · rw [hi, hx, hvalue]
    rfl
  · rw [hx, ← List.cons_append, ← List.cons_append, Place.after_append] at hvalue
    rw [hi]
    exact after_mark hu hm hvalue

end Declaration

/-- A node as it can come of a text: only brackets may be left open in its prelude. -/
structure Node.Read (n : Node) : Prop where
  formed : n.Formed
  trimmed : ∀ s ∈ n.prelude?, s.trim = s
  strings_closed : ∀ s ∈ n.prelude?, ∃ d, (Place.outside 0).after s = .outside d

theorem Node.Read.of_prelude {n : Node} (hn : n.Formed) (hp : n.prelude? = some s)
    (hs : s.trim = s) (hd : (Place.outside 0).after s = .outside d) : n.Read := by
  refine ⟨hn, ?_, ?_⟩ <;> rw [hp] <;> rintro _ ⟨⟩
  · exact hs
  · exact ⟨d, hd⟩

theorem makes_ofPrelude? (hs : s.trim = s) (ha : s.head? ≠ some '@')
    (hd : (Place.outside 0).after s = .outside d) (h : ofPrelude? s ending pos = some ev) :
    ev.Makes Node.Read := by
  rw [ofPrelude?.eq_def] at h
  split at h
  · cases h
    trivial
  · cases h
  · rename_i hne
    cases h
    exact fun children => .of_prelude ⟨by simpa using hne, ha⟩ rfl hs hd
  · split at h
    · rename_i x hx
      cases h
      have hformed := Declaration.formed_of_ofText? hx hs ha
      exact ⟨rfl, .of_prelude hformed rfl (Text.trim_trim _) (Declaration.after_text hx hd)⟩
    · cases h
      trivial

theorem makes_ofAtRule (hw : ∀ c ∈ name, isWordChar c) (hs : s.trim = s)
    (hd : (Place.outside 0).after s = .outside d) (ending : Ending) (pos : Position) :
    (ofAtRule name s ending pos).Makes Node.Read := by
  rw [ofAtRule]
  split
  · exact fun children => .of_prelude hw rfl hs hd
  · exact ⟨rfl, .of_prelude hw rfl hs hd⟩

/-- A prelude starts with the character it is read from. -/
theorem head_prelude {s : Stamped} {r : Prelude}
    (hs : ∀ p s', s = ('*', p) :: s' → c = '/' → False) (h : prelude d ((c, pos) :: s) = .ok r) :
    ∀ e ∈ r.text.head?, e = c := by
  rw [prelude] at h
  · split at h
    · split at h
      · obtain ⟨r', -, rfl⟩ := exists_of_map_eq_ok h
        simp
      · cases h
    · split at h
      · cases h
        simp
      · split at h
        · cases h
          simp
        · split at h
          · cases h
            simp
          · obtain ⟨r', -, rfl⟩ := exists_of_map_eq_ok h
            simp
  · exact fun p s' hs' hc => hs p s' hs' hc

theorem head_trim_prelude {s : Stamped} {r : Prelude}
    (hs : ∀ p s', s = ('*', p) :: s' → c = '/' → False) (hb : isBlank c = false)
    (h : prelude d ((c, pos) :: s) = .ok r) {e : Char} (he : r.text.trim.head? = some e) :
    e = c := by
  have hhead := head_prelude hs h
  refine hhead e (Text.head_of_head_trim (fun x hx => ?_) he)
  rw [hhead x hx, hb]

theorem eq_of_comment {s : Stamped} {r : Text × Stamped} (h : comment s = some r) :
    s.map (·.1) = r.1 ++ '*' :: '/' :: r.2.map (·.1) := by
  fun_induction comment s generalizing r with
  | case1 => cases h
  | case2 =>
    cases h
    rfl
  | case3 c _ s hs ih =>
    obtain ⟨q, hq, rfl⟩ := Text.took_eq_some_iff.1 h
    simp [ih hq]

/-- A comment ends where its end is first seen. -/
theorem comment_closed {s : Stamped} {r : Text × Stamped} (h : comment s = some r) :
    ¬ ['*', '/'] <:+: r.1 := by
  fun_induction comment s generalizing r with
  | case1 => cases h
  | case2 =>
    cases h
    simp
  | case3 c _ s hs ih =>
    obtain ⟨q, hq, rfl⟩ := Text.took_eq_some_iff.1 h
    rw [List.infix_cons_iff, not_or]
    refine ⟨?_, ih hq⟩
    intro hp
    obtain ⟨rfl, t, ht⟩ := List.cons_prefix_cons.1 hp
    have hchars := eq_of_comment hq
    rw [← ht] at hchars
    cases s with
    | nil => cases hchars
    | cons e s =>
      obtain ⟨e, p⟩ := e
      obtain rfl : e = '/' := (List.cons.inj hchars).1
      exact hs p s rfl rfl

theorem read_comment {s : Stamped} {r : Text × Stamped} (h : comment s = some r) (pos : Position) :
    Node.Read (.comment r.1.trim pos) := by
  refine ⟨⟨Text.trim_trim _, fun hi => comment_closed h ?_⟩, nofun, nofun⟩
  obtain ⟨u, v, hs, -, -⟩ := Text.exists_eq_trim r.1
  exact hi.trans ⟨u, v, hs.symm⟩

theorem makes_of_mem_eventsOf (s : Stamped) : ∀ ev ∈ eventsOf s, ev.Makes Node.Read := by
  fun_induction eventsOf s with
  | case1 => simp
  | case2 p p' s text rest hc ih =>
    rw [List.forall_mem_cons]
    exact ⟨⟨rfl, read_comment hc p⟩, ih⟩
  | case3 => simp [Event.Makes]
  | case4 c p s hs hb ih => exact ih
  | case5 p s hs hb ih =>
    rw [List.forall_mem_cons]
    exact ⟨trivial, ih⟩
  | case6 p s r hr name hs hb hc ih =>
    rw [List.forall_mem_cons]
    obtain ⟨d, hd, -⟩ := exists_after_of_prelude hr
    have hname : ∀ x ∈ name, isWordChar x := by
      intro x hx
      obtain ⟨y, hy, rfl⟩ := List.mem_map.1 hx
      exact List.all_eq_true.1 List.all_takeWhile y hy
    exact ⟨makes_ofAtRule hname (Text.trim_trim _) (Place.outside_after_trim hd) _ _, ih⟩
  | case7 => simp [Event.Makes]
  | case8 c p s hs hb hc ha r hr ih =>
    rw [List.forall_mem_append]
    obtain ⟨d, hd, -⟩ := exists_after_of_prelude hr
    refine ⟨fun ev hev => ?_, ih⟩
    refine makes_ofPrelude? (Text.trim_trim _) (fun hat => ?_) (Place.outside_after_trim hd)
      (Option.mem_toList.1 hev)
    exact ha (head_trim_prelude hs (by simpa using hb) hr hat).symm
  | case9 => simp [Event.Makes]

/-- All that is read of a text is well-formed, but for what a prelude leaves open. -/
theorem read_of_readSheet {css : Text} {sheet : List Node} (h : readSheet css = .ok sheet) :
    ∀ n ∈ nodesWithin sheet, n.Read :=
  forall_nodesWithin h (makes_of_mem_eventsOf _) (by simp [nodesWithin]) (by simp)

/-- A text that opens no comment outside strings and leaves no bracket open. -/
structure Sealed (s : Text) : Prop where
  quiet : (Place.outside 0).opensComment s = false
  level : ∀ d, (Place.outside 0).after s = .outside d → d = 0

theorem Plain.sealed (h : Plain s) : Sealed s := by
  refine ⟨h.passes.quiet, fun d hd => ?_⟩
  rw [h.passes.after] at hd
  cases hd
  rfl

theorem Node.Read.wellFormed {n : Node} (h : n.Read) (hs : ∀ s ∈ n.prelude?, Sealed s) :
    n.WellFormed := by
  refine ⟨h.formed, fun s hp => ⟨h.trimmed s hp, ?_, (hs s hp).quiet⟩⟩
  obtain ⟨d, hd⟩ := h.strings_closed s hp
  obtain rfl := (hs s hp).level d hd
  exact hd

/-- Printing what was read loses nothing, where no prelude opens a comment or leaves a bracket
open. -/
theorem exists_readSheet_printSheet_of_readSheet {css : Text} {sheet : List Node}
    (h : readSheet css = .ok sheet)
    (hs : ∀ n ∈ nodesWithin sheet, ∀ s ∈ n.prelude?, Sealed s) :
    ∃ sheet', readSheet (printSheet sheet) = .ok sheet' ∧ Alike sheet' sheet ∧
      printSheet sheet' = printSheet sheet := by
  have hwell : ∀ n ∈ nodesWithin sheet, n.WellFormed :=
    fun n hn => (read_of_readSheet h n hn).wellFormed (hs n hn)
  obtain ⟨sheet', ha, hadds⟩ := exists_adds_printSheet hwell Position.first
  exact ⟨sheet', readSheet_of_adds hadds, ha, ha.printSheet⟩

theorem exists_readSheet_printSheet_of_readSheet_media :
    let css := "@media /* old */ print \x7b .a,.b>c\x7b color :red! IMPORTANT;--x:\x7d".toList ++
      "\r\n/*y*/ \x7d".toList
    let sheet : List Node := [.block "media".toList "print".toList [
      .rule ".a,.b>c".toList [
        .declaration ⟨"color".toList, "red".toList, true⟩ ⟨1, 35⟩,
        .declaration ⟨"--x".toList, [], false⟩ ⟨1, 57⟩] ⟨1, 26⟩,
      .comment "y".toList ⟨2, 1⟩] ⟨1, 1⟩]
    readSheet css = .ok sheet ∧ (∀ n ∈ nodesWithin sheet, ∀ s ∈ n.prelude?, Sealed s) ∧
      ∃ sheet', readSheet (printSheet sheet) = .ok sheet' ∧ Alike sheet' sheet ∧
        printSheet sheet' = printSheet sheet := by
  intro css sheet
  have hread : readSheet css = .ok sheet := by decide +kernel
  have hplain : ∀ n ∈ nodesWithin sheet, ∀ s ∈ n.prelude?, Plain s := by
    simp only [sheet, nodesWithin, List.cons_append, List.nil_append]
    decide +kernel
  have hs : ∀ n ∈ nodesWithin sheet, ∀ s ∈ n.prelude?, Sealed s :=
    fun n hn s hp => (hplain n hn s hp).sealed
  exact ⟨hread, hs, exists_readSheet_printSheet_of_readSheet hread hs⟩

/-- A bracket that the end of the text leaves open takes in the semicolon that is printed behind it,
and a comment that is left out of a prelude can leave the start of another one behind. -/
theorem readSheet_printSheet_of_unsealed :
    let open_ : List Node := [.declaration ⟨"a".toList, "(b".toList, false⟩ ⟨1, 1⟩]
    let taken : List Node := [.declaration ⟨"a".toList, "(b;".toList, false⟩ ⟨1, 1⟩]
    let glued : List Node := [.declaration ⟨"a".toList, "/* b".toList, false⟩ ⟨1, 1⟩]
    (readSheet "a: (b".toList = .ok open_ ∧ readSheet (printSheet open_) = .ok taken ∧
        ¬ Alike taken open_) ∧
      readSheet "a://**/* b".toList = .ok glued ∧
        ¬ ∃ sheet, readSheet (printSheet glued) = .ok sheet := by
  intro open_ taken glued
  have hsame : ∀ {x y : Declaration} {p q : Position},
      Alike [.declaration x p] [.declaration y q] → x = y := by
    rintro _ _ _ _ ⟨⟩
    rfl
  refine ⟨⟨by decide +kernel, by decide +kernel, fun h => ?_⟩, by decide +kernel, ?_⟩
  · exact absurd (hsame h) (by decide)
  · rintro ⟨sheet, h⟩
    have hnone : (readSheet (printSheet glued)).toOption = none := by decide +kernel
    rw [h] at hnone
    cases hnone

end ComponentSheet
