import ComponentSheet.Proofs.Text.Quote
import ComponentSheet.Proofs.Text.Trimmed
import ComponentSheet.Sheet.Event

/-! What of a prelude is in strings, how deep in brackets the rest is, and where comments open. -/
namespace ComponentSheet

/-- Where a prelude has come to: outside strings at a depth of brackets, into a string, behind a
backslash in one, or to its end, be it a fault. -/
inductive Place where
  | outside (depth : Nat)
  | string (quote : Quote) (depth : Nat)
  | escape (quote : Quote) (depth : Nat)
  | ended
deriving DecidableEq

namespace Place

def next : Place → Char → Place
  | outside depth, c =>
    match Quote.ofChar? c with
    | some quote => string quote depth
    | none =>
      if depth = 0 ∧ (c = ';' ∨ c = '{' ∨ c = '}') then ended
      else outside (Event.depthAfter c depth)
  | string quote depth, c =>
    if c = '\\' then escape quote depth
    else if c = quote.char then outside depth
    else if c = '\n' then ended
    else string quote depth
  | escape quote depth, _ => string quote depth
  | ended, _ => ended

def after (p : Place) (s : Text) : Place :=
  s.foldl next p

def isOutside : Place → Bool
  | outside _ => true
  | _ => false

/-- Whether a comment opens outside the strings of a text. -/
def opensComment : Place → Text → Bool
  | _, [] => false
  | p, c :: s =>
    (p.isOutside && c == '/' && s.head? == some '*') || opensComment (p.next c) s

variable {p q r : Place} {c : Char} {s t : Text} {d d' : Nat} {quote : Quote}

@[simp] theorem after_nil : p.after [] = p := rfl

@[simp] theorem after_cons : p.after (c :: s) = (p.next c).after s := rfl

theorem after_append : p.after (s ++ t) = (p.after s).after t :=
  List.foldl_append

@[simp] theorem ended_after (s : Text) : ended.after s = ended := by
  induction s with
  | nil => rfl
  | cons c s ih => exact ih

theorem next_outside (h : Quote.ofChar? c = none)
    (he : ¬ (d = 0 ∧ (c = ';' ∨ c = '{' ∨ c = '}'))) :
    (outside d).next c = outside (Event.depthAfter c d) := by
  simp only [next, h]
  exact if_neg he

theorem next_quote (d : Nat) (quote : Quote) : (outside d).next quote.char = string quote d := by
  simp only [next, Quote.ofChar?_eq_some_iff.2 rfl]

theorem opensComment_left (h : opensComment p (s ++ t) = false) : opensComment p s = false := by
  induction s generalizing p with
  | nil => rfl
  | cons c s ih =>
    simp only [List.cons_append, opensComment, Bool.or_eq_false_iff] at h ⊢
    refine ⟨?_, ih h.2⟩
    cases s with
    | nil => simp
    | cons => exact h.1

theorem opensComment_right (h : opensComment p (s ++ t) = false) :
    opensComment (p.after s) t = false := by
  induction s generalizing p with
  | nil => exact h
  | cons c s ih =>
    simp only [List.cons_append, opensComment, Bool.or_eq_false_iff] at h
    exact ih h.2

theorem opensComment_append (hs : opensComment p s = false)
    (ht : opensComment (p.after s) t = false)
    (h : s.getLast? ≠ some '/' ∨ t.head? ≠ some '*') : opensComment p (s ++ t) = false := by
  induction s generalizing p with
  | nil => exact ht
  | cons c s ih =>
    simp only [List.cons_append, opensComment, Bool.or_eq_false_iff] at hs ⊢
    cases s with
    | nil =>
      refine ⟨?_, ht⟩
      rcases h with h | h
      · have hc : c ≠ '/' := by simpa using h
        simp [hc]
      · simp [h]
    | cons e s => exact ⟨hs.1, ih hs.2 ht (by simpa using h)⟩

end Place

/-- A text leads from one place to another and opens no comment. -/
structure Passes (p : Place) (s : Text) (q : Place) : Prop where
  after : p.after s = q
  quiet : p.opensComment s = false

variable {p q r : Place} {c e : Char} {s t : Text} {d d' : Nat} {quote : Quote}

instance : Decidable (Passes p s q) :=
  decidable_of_iff (p.after s = q ∧ p.opensComment s = false)
    ⟨fun h => ⟨h.1, h.2⟩, fun h => ⟨h.1, h.2⟩⟩

theorem Passes.nil (p : Place) : Passes p [] p :=
  ⟨rfl, rfl⟩

theorem Passes.append (hs : Passes p s q) (ht : Passes q t r)
    (h : s.getLast? ≠ some '/' ∨ t.head? ≠ some '*') : Passes p (s ++ t) r := by
  refine ⟨?_, Place.opensComment_append hs.quiet (hs.after ▸ ht.quiet) h⟩
  rw [Place.after_append, hs.after, ht.after]

theorem Passes.split (h : Passes p (s ++ t) r) : ∃ q, Passes p s q ∧ Passes q t r := by
  refine ⟨p.after s, ⟨rfl, Place.opensComment_left h.quiet⟩, ?_, Place.opensComment_right h.quiet⟩
  rw [← Place.after_append, h.after]

theorem Passes.tail (h : Passes p (c :: s) q) : Passes (p.next c) s q :=
  ⟨h.after, Place.opensComment_right (s := [c]) h.quiet⟩

theorem ne_of_isBlank (h : isBlank c) (hd : isBlank e = false) : c ≠ e := by
  rintro rfl
  simp [hd] at h

namespace Place

/-- Blanks other than line feeds lead nowhere. -/
def isStill : Place → Bool
  | outside _ | string .. => true
  | _ => false

/-- No blank leads here from another place. -/
def isSettled : Place → Bool
  | outside _ | escape .. => true
  | _ => false

theorem outside_next_blank (d : Nat) (h : isBlank c) : (outside d).next c = outside d := by
  have hq : Quote.ofChar? c = none := by
    rw [Quote.ofChar?_eq_none_iff, not_or]
    exact ⟨ne_of_isBlank h (by decide), ne_of_isBlank h (by decide)⟩
  have hd : Event.depthAfter c d = d := by
    simp [Event.depthAfter, ne_of_isBlank (e := '(') h (by decide),
      ne_of_isBlank (e := '[') h (by decide), ne_of_isBlank (e := ')') h (by decide),
      ne_of_isBlank (e := ']') h (by decide)]
  rw [next_outside hq, hd]
  rintro ⟨-, rfl | rfl | rfl⟩ <;> exact absurd h (by decide)

theorem string_next_blank (quote : Quote) (d : Nat) (h : isBlank c) :
    (string quote d).next c = if c = '\n' then ended else string quote d := by
  have hb : c ≠ '\\' := ne_of_isBlank h (by decide)
  have hq : c ≠ quote.char := ne_of_isBlank h (by cases quote <;> decide)
  simp only [next, hb, hq, if_false]

theorem next_blank (hp : p.isStill) (h : isBlank c) (hn : c ≠ '\n') : p.next c = p := by
  cases p with
  | outside d => exact outside_next_blank d h
  | string quote d => rw [string_next_blank quote d h, if_neg hn]
  | escape | ended => cases hp

theorem next_eq_of_isSettled (h : isBlank c) (hp : (p.next c).isSettled) : p.next c = p := by
  cases p with
  | outside d => exact outside_next_blank d h
  | string quote d =>
    rw [string_next_blank quote d h] at hp
    split at hp <;> cases hp
  | escape | ended => cases hp

theorem after_blanks (hp : p.isStill) (hu : s.all isBlank) (hn : '\n' ∉ s) : p.after s = p := by
  induction s with
  | nil => rfl
  | cons c s ih =>
    rw [List.all_cons, Bool.and_eq_true] at hu
    rw [List.mem_cons, not_or] at hn
    rw [after_cons, next_blank hp hu.1 (fun hc => hn.1 hc.symm), ih hu.2 hn.2]

theorem outside_after_blanks (d : Nat) (hu : s.all isBlank) :
    (outside d).after s = outside d := by
  induction s with
  | nil => rfl
  | cons c s ih =>
    rw [List.all_cons, Bool.and_eq_true] at hu
    rw [after_cons, outside_next_blank d hu.1, ih hu.2]

theorem after_eq_of_isSettled (hu : s.all isBlank) (hp : (p.after s).isSettled) :
    p.after s = p := by
  induction s generalizing p with
  | nil => rfl
  | cons c s ih =>
    rw [List.all_cons, Bool.and_eq_true] at hu
    rw [after_cons] at hp ⊢
    have hs := ih hu.2 hp
    rw [hs] at hp ⊢
    exact next_eq_of_isSettled hu.1 hp

theorem opensComment_blanks (hu : s.all isBlank) : opensComment p s = false := by
  induction s generalizing p with
  | nil => rfl
  | cons c s ih =>
    rw [List.all_cons, Bool.and_eq_true] at hu
    have hc : c ≠ '/' := ne_of_isBlank hu.1 (by decide)
    simp [opensComment, hc, ih hu.2]

end Place

theorem Passes.blanks (hp : p.isStill) (hu : s.all isBlank) (hn : '\n' ∉ s) : Passes p s p :=
  ⟨Place.after_blanks hp hu hn, Place.opensComment_blanks hu⟩

theorem Passes.blanks_outside (d : Nat) (hu : s.all isBlank) :
    Passes (.outside d) s (.outside d) :=
  ⟨Place.outside_after_blanks d hu, Place.opensComment_blanks hu⟩

theorem Passes.trimEnd (h : Passes p s q) (hq : q.isSettled) : Passes p s.trimEnd q := by
  obtain ⟨v, hs, hv⟩ := Text.exists_eq_trimEnd s
  rw [hs] at h
  obtain ⟨r, hr, hrq⟩ := h.split
  have ha := hrq.after
  have hrs : r.after v = r := Place.after_eq_of_isSettled hv (ha ▸ hq)
  obtain rfl : r = q := hrs.symm.trans ha
  exact hr

theorem Passes.trimStart (h : Passes p s q) (hp : p.isStill) (hn : '\n' ∉ s) :
    Passes p s.trimStart q := by
  obtain ⟨u, hs, hu⟩ := Text.exists_eq_trimStart s
  have hnu : '\n' ∉ u := fun hm => hn (hs ▸ List.mem_append_left _ hm)
  rw [hs] at h
  obtain ⟨r, hr, hrq⟩ := h.split
  obtain rfl : p = r := (Place.after_blanks hp hu hnu).symm.trans hr.after
  exact hrq

theorem Passes.trimStart_outside (h : Passes (.outside d) s q) :
    Passes (.outside d) s.trimStart q := by
  obtain ⟨u, hs, hu⟩ := Text.exists_eq_trimStart s
  rw [hs] at h
  obtain ⟨r, hr, hrq⟩ := h.split
  obtain rfl : .outside d = r := (Place.outside_after_blanks d hu).symm.trans hr.after
  exact hrq

/-- A line can be trimmed where it ends outside strings or behind a backslash. -/
theorem Passes.trimLine (h : Passes p s q) (hp : p.isStill) (hn : '\n' ∉ s) (hq : q.isSettled) :
    Passes p s.trim q :=
  (h.trimStart hp hn).trimEnd hq

theorem passes_trim_iff :
    Passes (.outside d) s.trim (.outside d') ↔ Passes (.outside d) s (.outside d') := by
  constructor
  · intro h
    obtain ⟨u, v, hs, hu, hv⟩ := Text.exists_eq_trim s
    rw [hs]
    refine ((Passes.blanks_outside d hu).append h (.inl fun hc => ?_)).append
      (.blanks_outside d' hv) (.inr fun hc => ?_)
    · exact ne_of_isBlank (List.all_eq_true.1 hu _ (List.mem_of_getLast? hc)) (by decide) rfl
    · exact ne_of_isBlank (List.all_eq_true.1 hv _ (List.mem_of_head? hc)) (by decide) rfl
  · exact fun h => h.trimStart_outside.trimEnd rfl

namespace Event

theorem prelude_quote (d : Nat) (quote : Quote) (pos : Position) (s : Stamped) :
    prelude d ((quote.char, pos) :: s) =
      match quoted quote.char s with
      | some (text, rest) =>
        (prelude d rest).map fun r => { r with text := quote.char :: text ++ r.text }
      | none => .error (.unterminatedString pos) := by
  have hq : quote.char = '"' ∨ quote.char = '\'' := by cases quote <;> simp [Quote.char]
  rw [prelude, if_pos hq]
  · split <;> simp_all
  · cases quote <;> simp [Quote.char]

theorem prelude_semicolon (pos : Position) (s : Stamped) :
    prelude 0 ((';', pos) :: s) = .ok ⟨[], .semicolon, s⟩ := by
  rw [prelude] <;> simp

theorem prelude_brace (pos : Position) (s : Stamped) :
    prelude 0 (('{', pos) :: s) = .ok ⟨[], .brace, s⟩ := by
  rw [prelude] <;> simp

/-- A character that is no part of a string or a comment and ends nothing. -/
theorem prelude_plain {pos : Position} {s : Stamped} (hq : Quote.ofChar? c = none)
    (he : ¬ (d = 0 ∧ (c = ';' ∨ c = '{' ∨ c = '}')))
    (hc : c = '/' → (s.map (·.1)).head? ≠ some '*') :
    prelude d ((c, pos) :: s) =
      (prelude (depthAfter c d) s).map fun r => { r with text := c :: r.text } := by
  rw [prelude, if_neg (Quote.ofChar?_eq_none_iff.1 hq), if_neg (by grind), if_neg (by grind),
    if_neg (by grind)]
  rintro _ s' rfl rfl
  exact hc rfl rfl

/-- A string is read up to its end. -/
theorem exists_quoted (h : Passes (.string quote d) s (.outside d')) :
    ∃ body rest, s = body ++ rest ∧ Passes (.outside d) rest (.outside d') ∧
      ∀ pos t, quoted quote.char (stamp pos (s ++ t)) =
        some (body, stamp (pos.after body) (rest ++ t)) := by
  -- A backslash is read together with the character behind it, so the text is not taken apart
  -- one character at a time.
  induction hn : s.length using Nat.strongRecOn generalizing s with
  | ind n ih =>
    cases s with
    | nil => cases h.after
    | cons c s =>
      have htail := h.tail
      by_cases hb : c = '\\'
      · subst hb
        rw [show (Place.string quote d).next '\\' = .escape quote d from rfl] at htail
        cases s with
        | nil => cases htail.after
        | cons e s =>
          have hlt : s.length < n := by simp only [← hn, List.length_cons]; omega
          obtain ⟨body, rest, rfl, hrest, hread⟩ := ih _ hlt htail.tail rfl
          refine ⟨'\\' :: e :: body, rest, rfl, hrest, fun pos t => ?_⟩
          simp only [List.cons_append, stamp_cons, quoted]
          rw [hread]
          rfl
      · have hlt : s.length < n := by simp only [← hn, List.length_cons]; omega
        have hskip : ∀ pos t, quoted quote.char (stamp pos ((c :: s) ++ t)) =
            if c = quote.char then some ([c], stamp (pos.next c) (s ++ t))
            else if c = '\n' then none
            else Text.took c (quoted quote.char (stamp (pos.next c) (s ++ t))) := by
          intro pos t
          rw [List.cons_append, stamp_cons, quoted]
          rintro _ _ _ _ rfl
          exact absurd rfl hb
        simp only [Place.next, hb, if_false] at htail
        split at htail
        · rename_i hc
          refine ⟨[c], s, rfl, htail, fun pos t => ?_⟩
          rw [hskip, if_pos hc]
          rfl
        · rename_i hc
          split at htail
          · have he := htail.after
            rw [Place.ended_after] at he
            cases he
          · rename_i hl
            obtain ⟨body, rest, rfl, hrest, hread⟩ := ih _ hlt htail rfl
            refine ⟨c :: body, rest, rfl, hrest, fun pos t => ?_⟩
            rw [hskip, if_neg hc, if_neg hl, hread]
            rfl

/-- What a text leads over is read as it stands. -/
theorem prelude_stamp (h : Passes (.outside d) s (.outside d')) (ht : t.head? ≠ some '*')
    (pos : Position) :
    prelude d (stamp pos (s ++ t)) =
      (prelude d' (stamp (pos.after s) t)).map fun r => { r with text := s ++ r.text } := by
  -- A string is read as a whole, so what is left behind it is any shorter text.
  induction hn : s.length using Nat.strongRecOn generalizing s d pos with
  | ind n ih =>
    cases s with
    | nil =>
      obtain rfl : d = d' := by simpa using h.after
      cases hp : prelude d (stamp pos t) <;> simp [hp, Except.map]
    | cons c s =>
      have htail := h.tail
      cases hq : Quote.ofChar? c with
      | some quote =>
        obtain rfl := Quote.ofChar?_eq_some_iff.1 hq
        rw [Place.next_quote] at htail
        obtain ⟨body, rest, rfl, hrest, hread⟩ := exists_quoted htail
        have hlt : rest.length < n := by
          simp only [← hn, List.length_cons, List.length_append]; omega
        rw [List.cons_append, stamp_cons, prelude_quote, hread]
        simp only [ih _ hlt hrest _ rfl, Position.after_cons, Position.after_append]
        cases prelude d' (stamp (((pos.next quote.char).after body).after rest) t) <;>
          simp [Except.map]
      | none =>
        by_cases he : d = 0 ∧ (c = ';' ∨ c = '{' ∨ c = '}')
        · have hend : (Place.outside d).next c = .ended := by
            simp only [Place.next, hq]
            exact if_pos he
          have ha := htail.after
          rw [hend, Place.ended_after] at ha
          cases ha
        · rw [Place.next_outside hq he] at htail
          have hlt : s.length < n := by simp only [← hn, List.length_cons]; omega
          have hc : c = '/' → ((stamp (pos.next c) (s ++ t)).map (·.1)).head? ≠ some '*' := by
            rintro rfl
            rw [map_fst_stamp]
            cases s with
            | nil => exact ht
            | cons e s =>
              have hquiet := h.quiet
              simp only [Place.opensComment, Bool.or_eq_false_iff] at hquiet
              simpa [Place.isOutside] using hquiet.1
          rw [List.cons_append, stamp_cons, prelude_plain hq he hc, ih _ hlt htail _ rfl,
            Position.after_cons]
          cases prelude d' (stamp ((pos.next c).after s) t) <;> simp [Except.map]

theorem after_of_quoted {s : Stamped} {x : Text × Stamped} (d : Nat)
    (h : quoted quote.char s = some x) : (Place.string quote d).after x.1 = .outside d := by
  fun_induction quoted quote.char s generalizing x with
  | case1 => cases h
  | case2 _ c _ s ih =>
    obtain ⟨y, hy, rfl⟩ := Text.took_eq_some_iff.1 h
    obtain ⟨z, hz, rfl⟩ := Text.took_eq_some_iff.1 hy
    have hrest := ih hz
    simpa [Place.next] using hrest
  | case3 _ s hs =>
    cases h
    have hb : quote.char ≠ '\\' := by cases quote <;> decide
    simp [Place.next, hb]
  | case4 => cases h
  | case5 c _ s hs hc hl ih =>
    obtain ⟨y, hy, rfl⟩ := Text.took_eq_some_iff.1 h
    have hb : c ≠ '\\' := by
      rintro rfl
      cases s with
      | nil => simp [quoted] at hy
      | cons e s => exact hs e.1 e.2 s rfl rfl
    have hrest := ih hy
    simpa [Place.next, hb, hc, hl] using hrest

/-- Only at the end of the sheet can brackets be left open. -/
theorem exists_after_of_prelude {s : Stamped} {r : Prelude} (h : prelude d s = .ok r) :
    ∃ d', (Place.outside d).after r.text = .outside d' ∧ (r.ending ≠ .bare → d' = 0) := by
  fun_induction prelude d s generalizing r with
  | case1 d =>
    cases h
    exact ⟨d, rfl, by simp⟩
  | case2 d _ _ s _ rest hc ih => exact ih h
  | case3 => cases h
  | case4 d c pos s hs hq text rest hr ih =>
    obtain ⟨r', hr', rfl⟩ := exists_of_map_eq_ok h
    obtain ⟨d', ha, he⟩ := ih hr'
    obtain ⟨quote, hquote⟩ := Option.ne_none_iff_exists'.1
      (fun hn => Quote.ofChar?_eq_none_iff.1 hn hq)
    obtain rfl := Quote.ofChar?_eq_some_iff.1 hquote
    refine ⟨d', ?_, he⟩
    rw [List.cons_append, Place.after_cons, Place.next_quote, Place.after_append,
      after_of_quoted d hr, ha]
  | case5 => cases h
  | case6 => cases h; exact ⟨_, rfl, by simp_all⟩
  | case7 => cases h; exact ⟨_, rfl, by simp_all⟩
  | case8 => cases h; exact ⟨_, rfl, by simp_all⟩
  | case9 d c pos s hs hq hsemi hopen hclose ih =>
    obtain ⟨r', hr', rfl⟩ := exists_of_map_eq_ok h
    obtain ⟨d', ha, he⟩ := ih hr'
    refine ⟨d', ?_, he⟩
    have hn := Place.next_outside (d := d) (Quote.ofChar?_eq_none_iff.2 hq) (by grind)
    rw [Place.after_cons, hn, ha]

end Event

end ComponentSheet
