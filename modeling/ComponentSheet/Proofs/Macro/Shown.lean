import ComponentSheet.Macro.Call
import ComponentSheet.Proofs.Selector.Boundary

/-! The calls that a text shows, with all other characters one by one. -/
namespace ComponentSheet.Macro

open Selector

variable {kinds : List Kind} {s t u v : Text} {l m : List Part} {p : Part} {g : Segment} {b : Bool}
  {c : Char}

/-- Each character as a part of its own. -/
def letters (s : Text) : List Part :=
  s.map fun c => .plain [c]

def Part.spelled : Part → List Part
  | plain t => letters t
  | p => [p]

def spelled (l : List Part) : List Part :=
  l.flatMap Part.spelled

@[simp] theorem letters_nil : letters [] = [] := rfl

@[simp] theorem letters_append : letters (s ++ t) = letters s ++ letters t :=
  List.map_append

@[simp] theorem spelled_nil : spelled [] = [] := rfl

@[simp] theorem spelled_append : spelled (l ++ m) = spelled l ++ spelled m :=
  List.flatMap_append

@[simp] theorem spelled_cons : spelled (p :: l) = p.spelled ++ spelled l := rfl

@[simp] theorem textOf_letters (s : Text) : textOf (letters s) = s := by
  induction s with
  | nil => rfl
  | cons c s ih => exact congrArg (c :: ·) ih

theorem textOf_spelled (l : List Part) : textOf (spelled l) = textOf l := by
  induction l with
  | nil => rfl
  | cons p l ih =>
    rw [spelled_cons, textOf_append, ih, textOf_cons]
    cases p with
    | plain t => rw [Part.spelled, textOf_letters, Part.text]
    | call | openCall => simp [Part.spelled]

/-- The calls of `kinds` and the characters around them. -/
def shown (kinds : List Kind) (s : Text) : List Part :=
  spelled (parts kinds s)

/-- What a segment shows. -/
def shownIn (kinds : List Kind) (g : Segment) : List Part :=
  match callPart? kinds g with
  | some p => [p]
  | none =>
    match arguments? g with
    | some (opening, args) => letters opening ++ shown kinds args ++ letters [')']
    | none => letters g.text

theorem textOf_shown (kinds : List Kind) (s : Text) : textOf (shown kinds s) = s := by
  rw [shown, textOf_spelled, textOf_parts]

theorem spelled_callPart? (h : callPart? kinds g = some p) : spelled [p] = [p] := by
  revert h
  fun_cases callPart? kinds g <;> simp only [Option.map_eq_some_iff, reduceCtorEq, false_imp_iff]
  all_goals
    rintro ⟨k, _, rfl⟩
    rfl

theorem spelled_partsFrom_cons (kinds : List Kind) (b : Bool) (c : Char) (s : Text) :
    spelled (partsFrom kinds b (c :: s)) =
      shownIn kinds (Reading.segment b c s).1 ++
        spelled (partsFrom kinds ((Reading.segment b c s).1.continues b)
          (Reading.segment b c s).2) := by
  rw [partsFrom, spelled_append, shownIn]
  congr 1
  cases hp : callPart? kinds (Reading.segment b c s).1 with
  | some p => exact spelled_callPart? hp
  | none =>
    dsimp only
    split
    · rename_i opening args ha
      simp [ha, Part.spelled, shown, parts]
    · rename_i ha
      simp [ha, Part.spelled]

theorem spelled_partsFrom_token (h : isBlank c = false) :
    spelled (partsFrom kinds b (c :: s)) =
      shownIn kinds (.token (Reading.token c s).1) ++
        spelled (partsFrom kinds (Reading.token c s).1.isSimple (Reading.token c s).2) := by
  rw [spelled_partsFrom_cons, Reading.segment_not_blank b h]
  rfl

theorem shownIn_segment_blank (kinds : List Kind) (b : Bool) (h : isBlank c) (s : Text) :
    shownIn kinds (Reading.segment b c s).1 = letters (c :: s.takeWhile isBlank) := by
  rw [Reading.segment_blank b h]
  dsimp only
  split
  · rfl
  · rfl

theorem spelled_partsFrom_dropWhile (kinds : List Kind) (b b' : Bool) (s : Text) :
    spelled (partsFrom kinds b s) =
      letters (s.takeWhile isBlank) ++ spelled (partsFrom kinds b' (s.dropWhile isBlank)) := by
  have hrest (b b' : Bool) : spelled (partsFrom kinds b (s.dropWhile isBlank)) =
      spelled (partsFrom kinds b' (s.dropWhile isBlank)) := by
    rcases Reading.head_dropWhile_isBlank s with h | ⟨c, t, h, hc⟩
    · rw [h, partsFrom, partsFrom]
    · rw [h, spelled_partsFrom_token hc, spelled_partsFrom_token hc]
  cases s with
  | nil => simp [partsFrom]
  | cons c s =>
    by_cases hc : isBlank c
    · rw [List.dropWhile_cons_of_pos hc] at hrest
      rw [spelled_partsFrom_cons, shownIn_segment_blank kinds b hc, Reading.segment_blank b hc,
        List.takeWhile_cons_of_pos hc, List.dropWhile_cons_of_pos hc]
      exact congrArg _ (hrest _ _)
    · rw [List.takeWhile_cons_of_neg hc]
      rw [List.dropWhile_cons_of_neg hc] at hrest ⊢
      exact hrest b b'

theorem spelled_partsFrom (kinds : List Kind) (b : Bool) (s : Text) :
    spelled (partsFrom kinds b s) = shown kinds s := by
  rw [shown, parts, spelled_partsFrom_dropWhile kinds b false,
    spelled_partsFrom_dropWhile kinds false false s]

theorem shown_blanks (h : u.all isBlank) : shown kinds (u ++ s) = letters u ++ shown kinds s := by
  rw [shown, shown, parts, parts, spelled_partsFrom_dropWhile kinds false false (u ++ s),
    spelled_partsFrom_dropWhile kinds false false s,
    List.takeWhile_append_of_pos (by simpa using h),
    List.dropWhile_append_of_pos (by simpa using h)]
  simp

@[simp] theorem shown_nil (kinds : List Kind) : shown kinds [] = [] := by
  rw [shown, parts, partsFrom, spelled_nil]

theorem shown_token (h : isBlank c = false) :
    shown kinds (c :: s) =
      shownIn kinds (.token (Reading.token c s).1) ++ shown kinds (Reading.token c s).2 := by
  rw [← spelled_partsFrom kinds false (c :: s), spelled_partsFrom_token h, spelled_partsFrom]

theorem shown_sign {k : Combinator} (h : k.sign = [c]) (s : Text) :
    shown kinds (c :: s) = .plain [c] :: shown kinds s := by
  have hk : k ≠ .descendant := by
    rintro rfl
    cases h
  obtain ⟨c', hc, ht⟩ := Reading.token_sign k hk s
  cases h.symm.trans hc
  have hb : isBlank c = false := by cases k <;> cases h <;> decide
  rw [shown_token hb, ht, Reading.sign, ← List.takeWhile_append_dropWhile (p := isBlank) (l := s),
    shown_blanks List.all_takeWhile, List.takeWhile_append_dropWhile]
  simp [shownIn, callPart?, arguments?, Token.arguments?, Segment.text, h, letters]

/-- A segment shows the same in front of any text that it stops before. -/
theorem shown_segment (hf : g.Formed) (hv : g.Stops v) :
    shown kinds (g.text ++ v) = shownIn kinds g ++ shown kinds v := by
  cases g with
  | blanks w => exact shown_blanks hf
  | token t =>
    by_cases hk : ∃ k w, t = .combinator k w
    · obtain ⟨k, w, rfl⟩ := hk
      have hi : shownIn kinds (.token (.combinator k w)) = letters (k.sign ++ w) := rfl
      rw [hi, Segment.text, Token.lexeme]
      by_cases hd : k = .descendant
      · subst k
        exact shown_blanks hf
      · obtain ⟨c, hc, -⟩ := Reading.token_sign k hd []
        rw [hc, List.append_assoc, List.singleton_append, shown_sign hc, shown_blanks hf]
        rfl
    · simp only [not_exists] at hk
      obtain ⟨c, x, hl, hb, ht⟩ := Reading.token_of_formed hf hv hk
      rw [Segment.text, hl, List.cons_append, shown_token hb, ht]

theorem shown_eq_flatMap (kinds : List Kind) (b : Bool) (s : Text) :
    shown kinds s = (segmentsFrom b s).flatMap (shownIn kinds) := by
  fun_induction segmentsFrom b s with
  | case1 => exact shown_nil kinds
  | case2 b c s r ih =>
    obtain ⟨hf, hv⟩ := Reading.segment_formed b c s
    have hs : r.1.text ++ r.2 = c :: s := Reading.segment_append b c s
    rw [← hs, shown_segment hf hv, ih, List.flatMap_cons]

theorem textOf_shownIn (kinds : List Kind) (g : Segment) : textOf (shownIn kinds g) = g.text := by
  rw [shownIn]
  cases hp : callPart? kinds g with
  | some p => simp [text_of_callPart? hp]
  | none =>
    cases ha : arguments? g with
    | some p => simp [textOf_shown, text_of_arguments? ha]
    | none => exact textOf_letters g.text

theorem textOf_flatMap_shownIn (kinds : List Kind) (l : List Segment) :
    textOf (l.flatMap (shownIn kinds)) = Selector.textOf l := by
  induction l with
  | nil => rfl
  | cons g l ih => rw [List.flatMap_cons, textOf_append, textOf_shownIn, ih, Selector.textOf_cons]

/-- To show something of all texts, follow the segments and the arguments in them. -/
theorem text_induction {P : Text → Prop} (nil : P [])
    (segment : ∀ (g : Segment) (v : Text), g.Formed → g.Stops v →
      (∀ o a, arguments? g = some (o, a) → P a) → P v → P (g.text ++ v)) (s : Text) : P s := by
  generalize hn : s.length = n
  induction n using Nat.strongRecOn generalizing s with
  | ind n ih =>
    by_cases hs : s = []
    · rw [hs]
      exact nil
    · obtain ⟨g, v, rfl, hf, hv, hlt⟩ := exists_segment hs
      refine segment g v hf hv (fun o a ha => ih _ ?_ a rfl) (ih _ (hn ▸ hlt) v rfl)
      rw [← hn, text_of_arguments? ha]
      simp only [List.length_append, List.length_cons, List.length_nil]
      omega

/-- The last token of a text stays what it is with `v` behind the text. -/
def EndsBefore (s v : Text) : Prop :=
  ∀ g ∈ (segments s).getLast?, g.Stops v

instance (s v : Text) : Decidable (EndsBefore s v) :=
  inferInstanceAs (Decidable (∀ g ∈ (segments s).getLast?, g.Stops v))

theorem shown_append_of_segments (b : Bool) (u : Text)
    (h : ∀ g ∈ (segmentsFrom b u).getLast?, g.Stops v) :
    shown kinds (u ++ v) = shown kinds u ++ shown kinds v := by
  fun_induction segmentsFrom b u with
  | case1 => simp
  | case2 b c s r ih =>
    obtain ⟨hf, hs⟩ := Reading.segment_formed b c s
    have ht : r.1.text ++ r.2 = c :: s := Reading.segment_append b c s
    rw [List.getLast?_cons] at h
    have hv : r.1.Stops (r.2 ++ v) := by
      cases hr : r.2 with
      | nil => exact h r.1 (by simp [hr, segmentsFrom])
      | cons x u => exact hs.of_head (by rw [hr]; rfl)
    have hi : shown kinds (r.2 ++ v) = shown kinds r.2 ++ shown kinds v := by
      refine ih fun g hg => h g ?_
      rw [Option.mem_def] at hg ⊢
      rw [hg, Option.getD_some]
    rw [← ht, List.append_assoc, shown_segment hf hv, shown_segment hf hs, hi, List.append_assoc]

theorem shown_append (h : EndsBefore u v) :
    shown kinds (u ++ v) = shown kinds u ++ shown kinds v :=
  shown_append_of_segments false u h

theorem firstCall_letters (s : Text) (l : List Part) :
    firstCall (letters s ++ l) =
      (firstCall l).map (Option.map fun c => { c with before := s ++ c.before }) := by
  induction s with
  | nil =>
    rw [letters_nil, List.nil_append]
    cases firstCall l with
    | error e => rfl
    | ok found => cases found <;> rfl
  | cons c s ih =>
    have he : letters (c :: s) ++ l = .plain [c] :: (letters s ++ l) := rfl
    rw [he, firstCall, ih]
    cases firstCall l with
    | error e => rfl
    | ok found => cases found <;> rfl

theorem firstCall_spelled (l : List Part) : firstCall (spelled l) = firstCall l := by
  induction l with
  | nil => rfl
  | cons p l ih =>
    rw [spelled_cons]
    cases p with
    | plain t => rw [Part.spelled, firstCall_letters, ih, firstCall]
    | call k params => simp only [Part.spelled, List.singleton_append, firstCall, textOf_spelled]
    | openCall k rest => rfl

theorem findCall_eq (kinds : List Kind) (s : Text) : findCall kinds s = firstCall (shown kinds s) :=
  (firstCall_spelled _).symm

theorem firstCall_eq_none_iff : firstCall l = .ok none ↔ ∀ p ∈ l, p.isCall = false := by
  fun_induction firstCall l with
  | case1 => simp
  | case2 t l ih =>
    rw [List.forall_mem_cons, ← ih]
    cases firstCall l with
    | error e => simp [Except.map, Part.isCall]
    | ok found => cases found <;> simp [Except.map, Part.isCall]
  | case3 | case4 | case5 => simp [Part.isCall]

theorem exists_of_firstCall {x : Call} (h : firstCall l = .ok (some x)) :
    ∃ pre post, l = pre ++ .call x.kind x.params :: post ∧ (∀ p ∈ pre, p.isCall = false) ∧
      x.before = textOf pre ∧ x.after = textOf post ∧ x.params.trim ≠ [] := by
  fun_induction firstCall l generalizing x with
  | case1 => cases h
  | case2 t l ih =>
    cases hl : firstCall l with
    | error e => simp [hl, Except.map] at h
    | ok found =>
      cases found with
      | none => simp [hl, Except.map] at h
      | some y =>
        simp only [hl, Except.map, Option.map_some, Except.ok.injEq, Option.some.injEq] at h
        subst h
        obtain ⟨pre, post, rfl, hp, hb, ha, ht⟩ := ih hl
        exact ⟨.plain t :: pre, post, rfl, by simpa [Part.isCall] using hp, by simp [hb, Part.text],
          ha, ht⟩
  | case3 => cases h
  | case4 k params l ht =>
    cases h
    exact ⟨[], l, rfl, by simp, rfl, rfl, ht⟩
  | case5 => cases h

/-- Why there is no first call: it has no parenthesis, or nothing in it. -/
theorem exists_of_firstCall_error {e : Failure} (h : firstCall l = .error e) :
    (∃ k rest, .openCall k rest ∈ l) ∨ ∃ k params, .call k params ∈ l ∧ params.trim = [] := by
  fun_induction firstCall l with
  | case1 => cases h
  | case2 t l ih =>
    cases hl : firstCall l with
    | ok found => simp [hl, Except.map] at h
    | error e' =>
      simp only [hl, Except.map, Except.error.injEq] at h
      rcases ih (h ▸ hl) with ⟨k, rest, hm⟩ | ⟨k, params, hm, ht⟩
      · exact Or.inl ⟨k, rest, List.mem_cons_of_mem _ hm⟩
      · exact Or.inr ⟨k, params, List.mem_cons_of_mem _ hm, ht⟩
  | case3 k params l ht => exact Or.inr ⟨k, params, List.mem_cons_self, ht⟩
  | case4 => cases h
  | case5 k rest => exact Or.inl ⟨k, rest, List.mem_cons_self⟩

theorem isCall_of_mem_letters (h : p ∈ letters s) : p.isCall = false := by
  obtain ⟨c, _, rfl⟩ := List.mem_map.1 h
  rfl

theorem spelled_of_plain (h : ∀ p ∈ spelled l, p.isCall = false) :
    spelled l = letters (textOf l) := by
  induction l with
  | nil => rfl
  | cons p l ih =>
    rw [spelled_cons] at h ⊢
    rw [ih fun q hq => h q (List.mem_append_right _ hq), textOf_cons, letters_append]
    cases p with
    | plain t => rfl
    | call k params => cases h (.call k params) (by simp [Part.spelled])
    | openCall k rest => cases h (.openCall k rest) (by simp [Part.spelled])

theorem shown_eq_letters_iff :
    shown kinds s = letters s ↔ ∀ p ∈ shown kinds s, p.isCall = false := by
  constructor
  · intro h p hp
    rw [h] at hp
    exact isCall_of_mem_letters hp
  · intro h
    have hs := spelled_of_plain h
    rwa [textOf_parts] at hs

theorem findCall_eq_none_iff : findCall kinds s = .ok none ↔ shown kinds s = letters s := by
  rw [findCall_eq, firstCall_eq_none_iff, shown_eq_letters_iff]

theorem containsCall_eq_false_iff : containsCall s = false ↔ shown Kind.all s = letters s := by
  rw [← findCall_eq_none_iff, containsCall]
  split
  · rename_i h
    exact iff_of_true rfl h
  · rename_i h
    exact iff_of_false (by simp) h

theorem mem_spelled_iff (hp : p.isCall) : p ∈ spelled l ↔ p ∈ l := by
  induction l with
  | nil => simp
  | cons x l ih =>
    rw [spelled_cons, List.mem_append, ih, List.mem_cons]
    cases x with
    | plain t =>
      have hn : p ∉ letters t := fun hm => by simp [isCall_of_mem_letters hm] at hp
      have hx : p ≠ .plain t := by
        rintro rfl
        cases hp
      simp [Part.spelled, hn, hx]
    | call | openCall => simp [Part.spelled]

theorem mem_shown_iff (hp : p.isCall) : p ∈ shown kinds s ↔ p ∈ parts kinds s :=
  mem_spelled_iff hp

/-- What a part shows when only the calls of `kinds` count. -/
def Part.among (kinds : List Kind) : Part → List Part
  | plain t => [plain t]
  | call k params =>
    if k ∈ kinds then [call k params]
    else letters (k.name ++ ['(']) ++ shown kinds params ++ letters [')']
  | openCall k rest => if k ∈ kinds then [openCall k rest] else letters (k.name ++ '(' :: rest)

theorem letters_among (kinds : List Kind) (s : Text) :
    (letters s).flatMap (Part.among kinds) = letters s := by
  induction s with
  | nil => rfl
  | cons c s ih => exact congrArg (.plain [c] :: ·) ih

theorem mem_all (k : Kind) : k ∈ Kind.all := by
  cases k <;> decide

theorem kindAmong?_name (kinds : List Kind) (k : Kind) :
    kindAmong? kinds k.name = if k ∈ kinds then some k else none := by
  simp [kindAmong?, Kind.ofName?_eq_some_iff.2 rfl, Option.filter]

theorem callPart?_eq_none (h : callPart? Kind.all g = none) : callPart? kinds g = none := by
  revert h
  fun_cases callPart? Kind.all g with
  | case1 n a | case2 n a =>
    intro h
    have hn : Kind.ofName? n = none := by
      cases hk : Kind.ofName? n with
      | none => rfl
      | some k => simp [kindAmong?, hk, Option.filter, mem_all] at h
    simp [callPart?, kindAmong?, hn]
  | case3 =>
    intro _
    rw [callPart?.eq_def]
    split <;> simp_all

/-- Among fewer kinds a call may be a function like any other. -/
theorem shownIn_of_callPart? (h : callPart? Kind.all g = some p) :
    shownIn kinds g = p.among kinds := by
  revert h
  fun_cases callPart? Kind.all g <;> simp only [Option.map_eq_some_iff, reduceCtorEq, false_imp_iff]
  all_goals
    rintro ⟨k, hk, rfl⟩
    rw [← name_of_kindAmong? hk, shownIn, callPart?, kindAmong?_name, Part.among]
    by_cases hm : k ∈ kinds
    · rw [if_pos hm, if_pos hm]
      rfl
    · rw [if_neg hm, if_neg hm]
      rfl

theorem shownIn_among
    (ih : ∀ o a, arguments? g = some (o, a) →
      shown kinds a = (shown Kind.all a).flatMap (Part.among kinds)) :
    shownIn kinds g = (shownIn Kind.all g).flatMap (Part.among kinds) := by
  cases hp : callPart? Kind.all g with
  | some p => rw [shownIn_of_callPart? hp, shownIn, hp, List.flatMap_singleton]
  | none =>
    rw [shownIn, shownIn, hp, callPart?_eq_none hp]
    cases hg : arguments? g with
    | none => exact (letters_among _ _).symm
    | some p =>
      obtain ⟨o, a⟩ := p
      simp [letters_among, ih o a hg]

theorem shown_among (kinds : List Kind) (s : Text) :
    shown kinds s = (shown Kind.all s).flatMap (Part.among kinds) := by
  induction s using text_induction with
  | nil => simp
  | segment g v hf hv ihArguments ih =>
    rw [shown_segment hf hv, shown_segment hf hv, List.flatMap_append, ← ih,
      shownIn_among ihArguments]

theorem mem_shown_of_among {q : Part} (hq : q ∈ shown Kind.all s) (hp : p ∈ q.among kinds) :
    p ∈ shown kinds s := by
  rw [shown_among]
  exact List.mem_flatMap.2 ⟨q, hq, hp⟩

theorem textOf_among (kinds : List Kind) (q : Part) : textOf (q.among kinds) = q.text := by
  cases q with
  | plain t => simp [Part.among]
  | call k p =>
    rw [Part.among]
    split
    · simp
    · simp [textOf_shown, Part.text]
  | openCall k rest =>
    rw [Part.among]
    split <;> simp [Part.text]

theorem textOf_flatMap_among (kinds : List Kind) (l : List Part) :
    textOf (l.flatMap (Part.among kinds)) = textOf l := by
  induction l with
  | nil => rfl
  | cons q l ih => rw [List.flatMap_cons, textOf_append, textOf_among, ih, textOf_cons]

theorem split_flatMap {α : Type} {f : α → List Part} {l : List α} {pre post : List Part}
    (h : l.flatMap f = pre ++ p :: post) :
    ∃ l₁ q l₂ y z, l = l₁ ++ q :: l₂ ∧ f q = y ++ p :: z ∧ pre = l₁.flatMap f ++ y ∧
      post = z ++ l₂.flatMap f := by
  induction l generalizing pre with
  | nil => simp at h
  | cons x l ih =>
    rw [List.flatMap_cons] at h
    have there (pre' : List Part) (hp : pre = f x ++ pre') (h' : l.flatMap f = pre' ++ p :: post) :
        ∃ l₁ q l₂ y z, x :: l = l₁ ++ q :: l₂ ∧ f q = y ++ p :: z ∧ pre = l₁.flatMap f ++ y ∧
          post = z ++ l₂.flatMap f := by
      obtain ⟨l₁, q, l₂, y, z, rfl, hx, rfl, hz⟩ := ih h'
      exact ⟨x :: l₁, q, l₂, y, z, rfl, hx, by simp [hp], hz⟩
    rcases List.append_eq_append_iff.1 h with ⟨u, hp, hu⟩ | ⟨u, hp, hu⟩
    · exact there _ hp hu
    · cases u with
      | nil => exact there [] (by simpa using hp.symm) hu.symm
      | cons v u =>
        rw [List.cons_append] at hu
        obtain ⟨rfl, rfl⟩ := List.cons.inj hu
        exact ⟨[], x, l, pre, u, rfl, hp, rfl, rfl⟩

end ComponentSheet.Macro
