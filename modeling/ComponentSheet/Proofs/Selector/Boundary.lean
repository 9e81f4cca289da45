import ComponentSheet.Proofs.Selector.Nesting

/-! Where a token ends: what may follow it without becoming part of it. -/
namespace ComponentSheet.Selector

namespace Reading

variable {n s v w : Text} {c : Char}

/-- The name goes on to the text behind it and no further. -/
def EndsName (n v : Text) : Prop :=
  name (n ++ v) = (n, v)

instance (n v : Text) : Decidable (EndsName n v) :=
  inferInstanceAs (Decidable (_ = _))

theorem name_cons (h : isNameChar c) (hb : c ≠ '\\') :
    name (c :: s) = (c :: (name s).1, (name s).2) := by
  rw [name.eq_def]
  split <;> simp_all

theorem name_of_head (h : v.head?.any isNameChar = false) : name v = ([], v) := by
  cases v with
  | nil => rfl
  | cons c v =>
    have hc : isNameChar c = false := by simpa using h
    have hb : c ≠ '\\' := by
      rintro rfl
      exact absurd hc (by decide)
    rw [name.eq_def]
    split <;> simp_all

theorem head_name (s : Text) : (name s).2.head?.any isNameChar = false := by
  fun_induction name s with
  | case1 => rfl
  | case2 c s ih => exact ih
  | case3 c s _ hc ih => exact ih
  | case4 c s _ hc => simpa using hc

theorem endsName_name (s : Text) : EndsName (name s).1 (name s).2 := by
  rw [EndsName, name_append]

theorem endsName_head (h : EndsName n v) : v.head?.any isNameChar = false := by
  have hv := head_name (n ++ v)
  rwa [h] at hv

theorem name_swap (h : (name s).2 ≠ []) (hw : w.head?.any isNameChar = false) :
    name ((name s).1 ++ w) = ((name s).1, w) := by
  fun_induction name s with
  | case1 => exact absurd rfl h
  | case2 c s ih => simp [name, ih h]
  | case3 c s hs hc ih =>
    have hb : c ≠ '\\' := by
      rintro rfl
      cases s with
      | nil => exact h rfl
      | cons c s => exact hs c s rfl rfl
    rw [List.cons_append, name_cons hc hb, ih h]
  | case4 c s _ hc => exact name_of_head hw

/-- Only whether a name goes on matters to it, not what else there is. -/
theorem endsName_swap (h : EndsName n v) (hv : v ≠ []) (hw : w.head?.any isNameChar = false) :
    EndsName n w := by
  have hs := name_swap (s := n ++ v) (w := w)
  rw [h] at hs
  exact hs hv hw

/-- Starts a name, or a function. -/
def startsName (n : Text) : Bool :=
  n.head?.any fun c => isNameChar c && !isBlank c

end Reading

open Reading

/-- The characters that are read in a way of their own, name characters apart. -/
def leads : Text := ['>', '+', '~', ',', '*', '&', '.', '#', '[', ':']

namespace Token

/-- Whether the token can be read from a text. -/
def Formed : Token → Prop
  | universal | nesting | comma | pseudoClass _ none | pseudoElement _ none => True
  | typeName n => startsName n
  | className n | idName n => n.head?.any isNameChar
  | attr body => bracketed (body ++ [']']) = some (body, [])
  | pseudoClass n (some a) | pseudoElement n (some a) => EndsName n ['('] ∧ Closed a
  | function n a => startsName n ∧ EndsName n ['('] ∧ Closed a
  | openFunction n rest => startsName n ∧ EndsName n ['('] ∧ parenthesized rest = none
  | combinator _ w => w.all isBlank
  | raw t =>
    t = ['.'] ∨ t = ['#'] ∨
      (∃ c s, (c = '[' ∨ c = ':') ∧ t = c :: s ∧ Reading.token c s = (raw t, [])) ∨
        ∃ c, t = [c] ∧ c ∉ leads ∧ isNameChar c = false ∧ isBlank c = false

/-- Whether the token stays what it is with this text behind it. -/
def Stops : Token → Text → Prop
  | typeName n, v => EndsName n v ∧ v.head? ≠ some '('
  | className n, v | idName n, v => EndsName n v
  | pseudoClass n none, v => EndsName n v ∧ v.head? ≠ some '(' ∧ (n = [] → v.head? ≠ some ':')
  | pseudoElement n none, v => EndsName n v ∧ v.head? ≠ some '('
  | openFunction .., v => v = []
  | raw t, v =>
    (t.head? = some '[' ∨ t.head? = some ':' → v = []) ∧
      (t = ['.'] ∨ t = ['#'] → v.head?.any isNameChar = false)
  | _, _ => True

instance (t : Token) (v : Text) : Decidable (t.Stops v) := by
  unfold Stops
  split <;> infer_instance

end Token

namespace Reading

variable {n a s v rest : Text} {c : Char} {t : Token} {colons : Text}
  {mk : Text → Option Text → Token}

theorem name_applied (h : EndsName n ['(']) (v : Text) : name (n ++ '(' :: v) = (n, '(' :: v) :=
  endsName_swap (w := '(' :: v) h (by simp) (by simp [isNameChar])

theorem parenthesized_closed (h : Closed a) (v : Text) :
    parenthesized (a ++ ')' :: v) = some (a, v) :=
  parenthesized_eq_some_iff.2 ⟨rfl, h⟩

theorem pseudo_applied (colons : Text) (mk : Text → Option Text → Token) (hn : EndsName n ['('])
    (ha : Closed a) (v : Text) :
    pseudo colons mk (n ++ '(' :: (a ++ ')' :: v)) = (mk n (some a), v) := by
  simp only [pseudo, name_applied hn, parenthesized_closed ha]

theorem pseudo_bare (hn : EndsName n v) (hv : v.head? ≠ some '(') :
    pseudo colons mk (n ++ v) = (mk n none, v) := by
  rw [pseudo, hn]
  split <;> simp_all

theorem pseudo_cases (colons : Text) (mk : Text → Option Text → Token) (s : Text) :
    (∃ n a rest, pseudo colons mk s = (mk n (some a), rest) ∧ EndsName n ['('] ∧ Closed a) ∨
      pseudo colons mk s = (.raw (colons ++ s), []) ∨
      ∃ n v, pseudo colons mk s = (mk n none, v) ∧ s = n ++ v ∧ EndsName n v ∧
        v.head? ≠ some '(' := by
  have hn := endsName_name s
  have ha := name_append s
  rw [pseudo]
  split
  · rename_i n r hr
    rw [hr] at hn
    split
    · rename_i a rest hp
      exact Or.inl ⟨n, a, rest, rfl, endsName_swap hn (by simp) (by simp [isNameChar]),
        (parenthesized_eq_some_iff.1 hp).2⟩
    · exact Or.inr (Or.inl rfl)
  · rename_i n v hv hr
    rw [hr] at hn ha
    refine Or.inr (Or.inr ⟨n, v, rfl, ha.symm, hn, fun hh => ?_⟩)
    obtain ⟨r, rfl⟩ := List.head?_eq_some_iff.1 hh
    exact hv r rfl

theorem named_applied (hn : EndsName n ['(']) (ha : Closed a) (v : Text) :
    named (n ++ '(' :: (a ++ ')' :: v)) = (.function n a, v) := by
  simp only [named, name_applied hn, parenthesized_closed ha]

theorem named_open (hn : EndsName n ['(']) (hr : parenthesized rest = none) :
    named (n ++ '(' :: rest) = (.openFunction n rest, []) := by
  simp only [named, name_applied hn, hr]

theorem named_bare (hn : EndsName n v) (hv : v.head? ≠ some '(') :
    named (n ++ v) = (.typeName n, v) := by
  rw [named, hn]
  split <;> simp_all

theorem named_cases (s : Text) :
    (∃ a rest, named s = (.function (name s).1 a, rest) ∧ EndsName (name s).1 ['('] ∧ Closed a) ∨
      (∃ rest, named s = (.openFunction (name s).1 rest, []) ∧ EndsName (name s).1 ['('] ∧
        parenthesized rest = none) ∨
      ∃ v, named s = (.typeName (name s).1, v) ∧ EndsName (name s).1 v ∧ v.head? ≠ some '(' := by
  have hn := endsName_name s
  rw [named]
  split
  · rename_i n r hr
    rw [hr] at hn ⊢
    have hp : EndsName n ['('] := endsName_swap hn (by simp) (by simp [isNameChar])
    split
    · rename_i a rest ha
      exact Or.inl ⟨a, rest, rfl, hp, (parenthesized_eq_some_iff.1 ha).2⟩
    · rename_i ha
      exact Or.inr (Or.inl ⟨r, rfl, hp, ha⟩)
  · rename_i n v hv hr
    rw [hr] at hn ⊢
    refine Or.inr (Or.inr ⟨v, rfl, hn, fun hh => ?_⟩)
    obtain ⟨r, rfl⟩ := List.head?_eq_some_iff.1 hh
    exact hv r rfl

theorem token_named (hc : isNameChar c) (s : Text) : token c s = named (c :: s) := by
  have hl : c ∉ leads := by
    intro hm
    have hall : leads.any isNameChar = false := by decide
    exact List.any_eq_false.1 hall c hm hc
  simp only [leads, List.mem_cons, List.not_mem_nil, or_false, not_or] at hl
  simp [token, hl, hc]

theorem token_plain (hl : c ∉ leads) (hc : isNameChar c = false) (s : Text) :
    token c s = (.raw [c], s) := by
  simp only [leads, List.mem_cons, List.not_mem_nil, or_false, not_or] at hl
  simp [token, hl, hc]

theorem token_colon (h : s.head? ≠ some ':') : token ':' s = pseudo [':'] .pseudoClass s := by
  rw [token.eq_def]
  simp only [Char.reduceEq, if_false, false_and, if_true]
  split
  · simp at h
  · rfl

theorem token_colons (s : Text) : token ':' (':' :: s) = pseudo [':', ':'] .pseudoElement s := rfl

theorem pseudoClass_formed (h : s.head? ≠ some ':') :
    (token ':' s).1.Formed ∧ (token ':' s).1.Stops (token ':' s).2 := by
  have ht := token_colon h
  rcases pseudo_cases [':'] .pseudoClass s with
    ⟨n, a, rest, hp, hn, ha⟩ | hp | ⟨n, v, hp, hs, hn, hv⟩
  · rw [ht, hp]
    exact ⟨⟨hn, ha⟩, trivial⟩
  · rw [ht, hp]
    exact ⟨Or.inr (Or.inr (Or.inl ⟨':', s, Or.inr rfl, rfl, ht.trans hp⟩)), by
      simp [Token.Stops]⟩
  · rw [ht, hp]
    refine ⟨trivial, hn, hv, ?_⟩
    rintro rfl
    simpa [hs] using h

theorem pseudoElement_formed (s : Text) :
    (token ':' (':' :: s)).1.Formed ∧ (token ':' (':' :: s)).1.Stops (token ':' (':' :: s)).2 := by
  have ht := token_colons s
  rcases pseudo_cases [':', ':'] .pseudoElement s with
    ⟨n, a, rest, hp, hn, ha⟩ | hp | ⟨n, v, hp, hs, hn, hv⟩
  · rw [ht, hp]
    exact ⟨⟨hn, ha⟩, trivial⟩
  · rw [ht, hp]
    exact ⟨Or.inr (Or.inr (Or.inl ⟨':', ':' :: s, Or.inr rfl, rfl, ht.trans hp⟩)), by
      simp [Token.Stops]⟩
  · rw [ht, hp]
    exact ⟨trivial, hn, hv⟩

theorem head_name_fst (hc : isNameChar c) (s : Text) : (name (c :: s)).1.head? = some c := by
  rw [name.eq_def]
  split <;> simp_all

theorem named_formed (hc : isNameChar c) (hb : isBlank c = false) (s : Text) :
    (named (c :: s)).1.Formed ∧ (named (c :: s)).1.Stops (named (c :: s)).2 := by
  have hs : startsName (name (c :: s)).1 := by simp [startsName, head_name_fst hc, hc, hb]
  rcases named_cases (c :: s) with ⟨a, rest, hp, hn, ha⟩ | ⟨rest, hp, hn, hr⟩ | ⟨v, hp, hn, hv⟩
  · rw [hp]
    exact ⟨⟨hs, hn, ha⟩, trivial⟩
  · rw [hp]
    exact ⟨⟨hs, hn, hr⟩, rfl⟩
  · rw [hp]
    exact ⟨hs, hn, hv⟩

theorem head_name_formed (h : s.head?.any isNameChar) : (name s).1.head?.any isNameChar := by
  cases s with
  | nil => simp at h
  | cons c s =>
    have hc : isNameChar c := by simpa using h
    simp [head_name_fst hc, hc]

theorem raw_stops (hl : c ≠ '[' ∧ c ≠ ':')
    (h : c = '.' ∨ c = '#' → s.head?.any isNameChar = false) :
    (Token.raw [c]).Stops s := by
  constructor
  · intro hc
    simp_all
  · intro hc
    exact h (by simpa using hc)

theorem token_formed (h : isBlank c = false) (s : Text) :
    (token c s).1.Formed ∧ (token c s).1.Stops (token c s).2 := by
  fun_cases token c s
  case case1 | case2 | case3 => exact ⟨List.all_takeWhile, trivial⟩
  case case4 | case5 | case6 => exact ⟨trivial, trivial⟩
  case case7 hc => exact ⟨head_name_formed hc.2, endsName_name s⟩
  case case8 hc => exact ⟨head_name_formed hc.2, endsName_name s⟩
  case case9 hb => exact ⟨group_append hb [], trivial⟩
  case case10 hc _ _ hb =>
    subst c
    refine ⟨Or.inr (Or.inr (Or.inl ⟨'[', s, Or.inl rfl, rfl, ?_⟩)), fun _ => rfl, by simp⟩
    simp [token, hb]
  case case11 hc s _ _ =>
    subst c
    exact pseudoElement_formed s
  case case12 hc hs _ _ =>
    subst c
    rw [← token_colon fun hh => ?_]
    · exact pseudoClass_formed fun hh => (List.head?_eq_some_iff.1 hh).elim hs
    · exact (List.head?_eq_some_iff.1 hh).elim hs
  case case13 hc _ _ => exact named_formed hc h s
  case case14 h₁ h₂ h₃ h₄ h₅ h₆ hb hp hn hd hi =>
    refine ⟨?_, raw_stops ⟨hb, hp⟩ ?_⟩
    · by_cases hc : c = '.' ∨ c = '#'
      · rcases hc with rfl | rfl
        · exact Or.inl rfl
        · exact Or.inr (Or.inl rfl)
      · rw [not_or] at hc
        exact Or.inr (Or.inr (Or.inr ⟨c, rfl, by simp [leads, *], by simpa using hn, h⟩))
    · rintro (rfl | rfl)
      · simpa using hd
      · simpa using hi

theorem token_sign (k : Combinator) (hk : k ≠ .descendant) (s : Text) :
    ∃ c, k.sign = [c] ∧ token c s = sign k s := by
  cases k with
  | descendant => exact absurd rfl hk
  | child => exact ⟨_, rfl, rfl⟩
  | nextSibling => exact ⟨_, rfl, rfl⟩
  | subsequentSibling => exact ⟨_, rfl, rfl⟩

theorem token_marked (hn : n.head?.any isNameChar) (hv : EndsName n v) :
    token '.' (n ++ v) = (.className n, v) ∧ token '#' (n ++ v) = (.idName n, v) := by
  obtain ⟨c, n, rfl⟩ := List.exists_cons_of_ne_nil (l := n) (by rintro rfl; simp at hn)
  have hc : isNameChar c := by simpa using hn
  have he : name (c :: (n ++ v)) = (c :: n, v) := hv
  simp [token, hc, he]

theorem exists_of_startsName (h : startsName n) :
    ∃ c m, n = c :: m ∧ isNameChar c ∧ isBlank c = false := by
  cases n with
  | nil => simp [startsName] at h
  | cons c m => exact ⟨c, m, rfl, by simpa [startsName] using h⟩

theorem isNameChar_of_endsName (h : EndsName (c :: n) v) : isNameChar c := by
  cases hc : isNameChar c with
  | true => rfl
  | false =>
    have hn : name (c :: (n ++ v)) = ([], c :: (n ++ v)) := name_of_head (by simpa using hc)
    cases hn.symm.trans h

theorem head_ne_colon (hn : EndsName n v) (hv : n = [] → v.head? ≠ some ':') :
    (n ++ v).head? ≠ some ':' := by
  cases n with
  | nil => exact hv rfl
  | cons c n =>
    intro hc
    cases hc
    exact absurd (isNameChar_of_endsName hn) (by decide)

/-- Reading a token together with what it stops before gives the token back. -/
theorem token_of_formed (hf : t.Formed) (hv : t.Stops v) (hk : ∀ k w, t ≠ .combinator k w) :
    ∃ c x, t.lexeme = c :: x ∧ isBlank c = false ∧ token c (x ++ v) = (t, v) := by
  cases t with
  | combinator k w => exact absurd rfl (hk k w)
  | universal | nesting | comma => exact ⟨_, _, rfl, by decide, rfl⟩
  | typeName n =>
    obtain ⟨c, m, rfl, hc, hb⟩ := exists_of_startsName hf
    exact ⟨c, m, rfl, hb, (token_named hc _).trans (named_bare hv.1 hv.2)⟩
  | className n => exact ⟨_, _, rfl, by decide, (token_marked hf hv).1⟩
  | idName n => exact ⟨_, _, rfl, by decide, (token_marked hf hv).2⟩
  | attr body =>
    have hg : bracketed (body ++ ']' :: v) = some (body, v) := group_append hf v
    refine ⟨_, _, rfl, by decide, ?_⟩
    simp [token, hg]
  | pseudoClass n more =>
    refine ⟨_, _, rfl, by decide, ?_⟩
    cases more with
    | none =>
      exact (token_colon (head_ne_colon hv.1 hv.2.2)).trans (pseudo_bare hv.1 hv.2.1)
    | some a =>
      have hp := pseudo_applied [':'] .pseudoClass hf.1 hf.2 v
      rw [← hp, ← token_colon (head_ne_colon (name_applied hf.1 _) (by simp))]
      simp [Token.applied]
  | pseudoElement n more =>
    refine ⟨_, _, rfl, by decide, ?_⟩
    cases more with
    | none => exact (token_colons _).trans (pseudo_bare hv.1 hv.2)
    | some a =>
      have hp := pseudo_applied [':', ':'] .pseudoElement hf.1 hf.2 v
      rw [← hp, ← token_colons]
      simp [Token.applied]
  | function n a =>
    obtain ⟨hs, hn, ha⟩ := hf
    have hp := named_applied hn ha v
    obtain ⟨c, m, rfl, hc, hb⟩ := exists_of_startsName hs
    refine ⟨c, m ++ '(' :: a ++ [')'], rfl, hb, ?_⟩
    rw [token_named hc, ← hp]
    simp
  | openFunction n rest =>
    obtain ⟨hs, hn, hr⟩ := hf
    have hp := named_open hn hr
    obtain ⟨c, m, rfl, hc, hb⟩ := exists_of_startsName hs
    refine ⟨c, m ++ '(' :: rest, rfl, hb, ?_⟩
    cases hv
    rw [token_named hc, ← hp]
    simp
  | raw text =>
    rcases hf with rfl | rfl | ⟨c, s, hc, rfl, hr⟩ | ⟨c, rfl, hl, hn, hb⟩
    · refine ⟨_, _, rfl, by decide, ?_⟩
      simp [token, hv.2 (Or.inl rfl), isNameChar]
    · refine ⟨_, _, rfl, by decide, ?_⟩
      simp [token, hv.2 (Or.inr rfl), isNameChar]
    · refine ⟨c, s, rfl, by rcases hc with rfl | rfl <;> decide, ?_⟩
      rw [hv.1 (by simpa using hc), List.append_nil, hr]
    · exact ⟨c, [], rfl, hb, token_plain hl hn v⟩

end Reading

namespace Token

variable {t : Token} {n o a b v w : Text}

theorem endsName_of_head (h : EndsName n v) (hw : w.head? = v.head?) : EndsName n w := by
  cases v with
  | nil =>
    rw [List.head?_eq_none_iff.1 hw]
    exact h
  | cons c v => exact endsName_swap h (by simp) (by rw [hw]; exact endsName_head h)

theorem eq_nil_of_head (hw : w.head? = v.head?) (h : v = []) : w = [] := by
  subst h
  exact List.head?_eq_none_iff.1 hw

/-- Only the first character behind a token matters to it. -/
theorem Stops.of_head (h : t.Stops v) (hw : w.head? = v.head?) : t.Stops w := by
  revert h
  fun_cases Stops t v <;> intro h
  case case1 => exact ⟨endsName_of_head h.1 hw, hw ▸ h.2⟩
  case case2 | case3 => exact endsName_of_head h hw
  case case4 => exact ⟨endsName_of_head h.1 hw, hw ▸ h.2.1, hw ▸ h.2.2⟩
  case case5 => exact ⟨endsName_of_head h.1 hw, hw ▸ h.2⟩
  case case6 => exact eq_nil_of_head hw h
  case case7 => exact ⟨fun ht => eq_nil_of_head hw (h.1 ht), hw ▸ h.2⟩
  case case8 => cases t <;> simp_all [Stops]

/-- A token that stops before a name stops before anything. -/
theorem Stops.of_name (h : t.Stops v) (hv : v.head?.any isNameChar) (w : Text) : t.Stops w := by
  have hn {n : Text} : ¬ EndsName n v := fun he => by simp [endsName_head he] at hv
  have hne : v ≠ [] := by
    rintro rfl
    simp at hv
  revert h
  fun_cases Stops t v <;> intro h
  case case1 | case4 | case5 => exact absurd h.1 hn
  case case2 | case3 => exact absurd h hn
  case case6 => exact absurd h hne
  case case7 => exact ⟨fun ht => absurd (h.1 ht) hne, fun ht => by simp [h.2 ht] at hv⟩
  case case8 => cases t <;> simp_all [Stops]

/-- A token that stops before some text stops before what no token goes on with. -/
theorem Stops.of_boundary (h : t.Stops v) (hv : v ≠ []) (hn : w.head?.any isNameChar = false)
    (hp : w.head? ≠ some '(') (hc : w.head? ≠ some ':') : t.Stops w := by
  revert h
  fun_cases Stops t v <;> intro h
  case case1 => exact ⟨endsName_swap h.1 hv hn, hp⟩
  case case2 | case3 => exact endsName_swap h hv hn
  case case4 => exact ⟨endsName_swap h.1 hv hn, hp, fun _ => hc⟩
  case case5 => exact ⟨endsName_swap h.1 hv hn, hp⟩
  case case6 => exact absurd h hv
  case case7 => exact ⟨fun ht => absurd (h.1 ht) hv, fun _ => hn⟩
  case case8 => cases t <;> simp_all [Stops]

/-- What stops somewhere stops at the end of the text. -/
theorem Stops.nil (h : t.Stops v) : t.Stops [] := by
  by_cases hv : v = []
  · rwa [hv] at h
  · exact h.of_boundary hv rfl nofun nofun

/-- The token with other arguments, if it has any. -/
def carrying (t : Token) (a : Text) : Token :=
  match t with
  | pseudoClass n (some _) => pseudoClass n (some a)
  | pseudoElement n (some _) => pseudoElement n (some a)
  | function n _ => function n a
  | t => t

theorem closed_of_arguments? (hf : t.Formed) (h : t.arguments? = some (o, a)) : Closed a := by
  revert h
  fun_cases arguments? t <;> rintro ⟨⟩
  · exact hf.2
  · exact hf.2
  · exact hf.2.2

theorem carrying_formed (hf : t.Formed) (h : t.arguments? = some (o, a)) (hb : Closed b) :
    (t.carrying b).Formed := by
  revert h
  fun_cases arguments? t <;> rintro ⟨⟩
  · exact ⟨hf.1, hb⟩
  · exact ⟨hf.1, hb⟩
  · exact ⟨hf.1, hf.2.1, hb⟩

theorem arguments?_carrying (h : t.arguments? = some (o, a)) (b : Text) :
    (t.carrying b).arguments? = some (o, b) := by
  revert h
  fun_cases arguments? t <;> rintro ⟨⟩ <;> rfl

theorem opening_ne_nil (h : t.arguments? = some (o, a)) : o ≠ [] := by
  revert h
  fun_cases arguments? t <;> rintro ⟨⟩ <;> simp

/-- What has arguments ends with a parenthesis, whatever follows. -/
theorem stops_of_arguments? (h : t.arguments? = some (o, a)) (v : Text) : t.Stops v := by
  revert h
  fun_cases arguments? t <;> rintro ⟨⟩ <;> trivial

end Token

namespace Segment

/-- Whether the segment can be read from a text. -/
def Formed : Segment → Prop
  | blanks w => w.all isBlank
  | token t => t.Formed

/-- Whether the segment stays what it is with this text behind it, but for more blanks. -/
def Stops : Segment → Text → Prop
  | blanks _, _ => True
  | token t, v => t.Stops v

instance (g : Segment) (v : Text) : Decidable (g.Stops v) := by
  unfold Stops
  split <;> infer_instance

variable {g : Segment} {v w : Text}

theorem Stops.of_head (h : g.Stops v) (hw : w.head? = v.head?) : g.Stops w := by
  cases g with
  | blanks => trivial
  | token t => exact Token.Stops.of_head h hw

theorem Stops.of_name (h : g.Stops v) (hv : v.head?.any isNameChar) (w : Text) : g.Stops w := by
  cases g with
  | blanks => trivial
  | token t => exact Token.Stops.of_name h hv w

theorem Stops.nil (h : g.Stops v) : g.Stops [] := by
  cases g with
  | blanks => trivial
  | token t => exact Token.Stops.nil h

end Segment

namespace Reading

variable {b : Bool} {c : Char}

theorem head_dropWhile_isBlank (s : Text) :
    s.dropWhile isBlank = [] ∨ ∃ c t, s.dropWhile isBlank = c :: t ∧ isBlank c = false := by
  cases hs : s.dropWhile isBlank with
  | nil => exact Or.inl rfl
  | cons c t =>
    have hc := List.head?_dropWhile_not isBlank s
    rw [hs] at hc
    exact Or.inr ⟨c, t, rfl, by simpa using hc⟩

theorem segment_blank (b : Bool) (hc : isBlank c) (s : Text) :
    segment b c s =
      (if b && startsCompound (s.dropWhile isBlank) then
        .token (.combinator .descendant (c :: s.takeWhile isBlank))
      else .blanks (c :: s.takeWhile isBlank), s.dropWhile isBlank) := by
  rw [segment, if_pos hc]
  dsimp only
  split <;> rfl

theorem segment_not_blank (b : Bool) (hc : isBlank c = false) (s : Text) :
    segment b c s = (.token (token c s).1, (token c s).2) := by
  simp [segment, hc]

theorem segment_formed (b : Bool) (c : Char) (s : Text) :
    (segment b c s).1.Formed ∧ (segment b c s).1.Stops (segment b c s).2 := by
  by_cases hc : isBlank c
  · have hw : (c :: s.takeWhile isBlank).all isBlank := by simp [hc]
    rw [segment_blank b hc]
    dsimp only
    split
    · exact ⟨hw, trivial⟩
    · exact ⟨hw, trivial⟩
  · have hc : isBlank c = false := by simpa using hc
    rw [segment_not_blank b hc]
    exact token_formed hc s

end Reading

/-- A text is empty, or a segment and a text that it stops before. -/
theorem exists_segment {s : Text} (h : s ≠ []) :
    ∃ (g : Segment) (v : Text), s = g.text ++ v ∧ g.Formed ∧ g.Stops v ∧ v.length < s.length := by
  obtain ⟨c, s, rfl⟩ := List.exists_cons_of_ne_nil h
  have hs := segment_append false c s
  have hf := segment_formed false c s
  exact ⟨_, _, hs.symm, hf.1, hf.2, length_segment_lt false c s⟩

end ComponentSheet.Selector
