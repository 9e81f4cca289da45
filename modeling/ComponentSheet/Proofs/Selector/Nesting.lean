import ComponentSheet.Proofs.Text.Quote
import ComponentSheet.Selector.Segment

/-! How deep in parentheses and strings a text leads. -/
namespace ComponentSheet.Selector

/-- Backslashes have a meaning in strings only. -/
inductive Mode where
  | plain
  | inString (q : Quote)
  /-- In a string, behind a backslash. -/
  | escaped (q : Quote)
deriving DecidableEq

def Mode.all : List Mode :=
  [plain, inString .double, inString .single, escaped .double, escaped .single]

theorem Mode.mem_all (m : Mode) : m ∈ all := by
  rcases m with _ | (_ | _) | (_ | _) <;> decide

structure Level where
  depth : Nat
  mode : Mode
deriving DecidableEq

namespace Level

def ground : Level := ⟨0, .plain⟩

/-- The level behind a character. No parenthesis is closed that is not open. -/
def step (ℓ : Level) (c : Char) : Option Level :=
  match ℓ.mode with
  | .escaped q => some ⟨ℓ.depth, .inString q⟩
  | .inString q =>
    if c = '\\' then some ⟨ℓ.depth, .escaped q⟩
    else if c = q.char then some ⟨ℓ.depth, .plain⟩
    else some ℓ
  | .plain =>
    if c = '"' then some ⟨ℓ.depth, .inString .double⟩
    else if c = '\'' then some ⟨ℓ.depth, .inString .single⟩
    else if c = '(' then some ⟨ℓ.depth + 1, .plain⟩
    else if c = ')' then
      match ℓ.depth with
      | 0 => none
      | n + 1 => some ⟨n, .plain⟩
    else some ℓ

def through (ℓ : Level) (s : Text) : Option Level :=
  s.foldlM step ℓ

variable {ℓ : Level} {c : Char} {s t : Text} {d e : Nat} {m m' : Mode}

@[simp] theorem through_nil : ℓ.through [] = some ℓ := rfl

theorem through_cons : ℓ.through (c :: s) = (ℓ.step c).bind (·.through s) := by
  rw [through, List.foldlM_cons]
  rfl

theorem through_append : ℓ.through (s ++ t) = (ℓ.through s).bind (·.through t) := by
  rw [through, List.foldlM_append]
  rfl

theorem step_shift (h : step ⟨d, m⟩ c = some ⟨e, m'⟩) (n : Nat) :
    step ⟨d + n, m⟩ c = some ⟨e + n, m'⟩ := by
  cases m with
  | escaped q =>
    cases h
    rfl
  | inString q => grind [step]
  | plain =>
    cases d with
    | zero => grind [step]
    | succ d => grind [step]

theorem through_shift (h : through ⟨d, m⟩ s = some ⟨e, m'⟩) (n : Nat) :
    through ⟨d + n, m⟩ s = some ⟨e + n, m'⟩ := by
  induction s generalizing d m with
  | nil =>
    cases h
    rfl
  | cons c s ih =>
    rw [through_cons, Option.bind_eq_some_iff] at h ⊢
    obtain ⟨ℓ, hs, ht⟩ := h
    exact ⟨_, step_shift hs n, ih ht⟩

theorem exists_step (m : Mode) (c : Char) (d : Nat) :
    ∃ e m', step ⟨d + 1, m⟩ c = some ⟨e, m'⟩ ∧ d ≤ e := by
  fun_cases step ⟨d + 1, m⟩ c
  case case8 _ _ _ hd => cases hd
  case case9 hd =>
    cases hd
    exact ⟨_, _, rfl, Nat.le_refl d⟩
  case case7 => exact ⟨_, _, rfl, Nat.le_succ_of_le (Nat.le_succ d)⟩
  all_goals exact ⟨_, _, rfl, Nat.le_succ d⟩

theorem exists_through (h : s.length ≤ d) (m : Mode) : ∃ ℓ, through ⟨d, m⟩ s = some ℓ := by
  induction s generalizing d m with
  | nil => exact ⟨_, rfl⟩
  | cons c s ih =>
    obtain ⟨d, rfl⟩ := Nat.exists_eq_add_one_of_ne_zero (Nat.ne_of_gt (Nat.lt_of_lt_of_le
      (Nat.succ_pos s.length) h))
    obtain ⟨e, m', hs, he⟩ := exists_step m c d
    obtain ⟨ℓ, ht⟩ := ih (Nat.le_trans (Nat.le_of_succ_le_succ h) he) m'
    exact ⟨ℓ, by rw [through_cons, hs, Option.bind_some, ht]⟩

end Level

/-- All parentheses and strings that are opened in the text are closed in it, and no others. -/
def Closed (s : Text) : Prop :=
  Level.ground.through s = some .ground

instance (s : Text) : Decidable (Closed s) :=
  inferInstanceAs (Decidable (_ = _))

/-- Two texts that lead to the same level from anywhere. -/
def SameLevels (s t : Text) : Prop :=
  ∀ ℓ : Level, ℓ.through s = ℓ.through t

variable {s t u v a rest : Text} {o cl c : Char} {d : Nat} {q : Option Char}

/-- Deep enough inside, where all parentheses can be closed, one level stands for all. -/
theorem sameLevels_iff :
    SameLevels s t ↔ ∀ d < max s.length t.length + 1, ∀ m ∈ Mode.all,
      Level.through ⟨d, m⟩ s = Level.through ⟨d, m⟩ t := by
  constructor
  · intro h d _ m _
    exact h ⟨d, m⟩
  · rintro h ⟨d, m⟩
    by_cases hd : d < max s.length t.length + 1
    · exact h d hd m m.mem_all
    · -- Neither text reaches the ground from here, so that both lead as far from any deeper level.
      obtain ⟨n, rfl⟩ := Nat.exists_eq_add_of_le (Nat.le_of_succ_le (Nat.le_of_not_lt hd))
      obtain ⟨⟨e, m'⟩, hs⟩ := Level.exists_through (Nat.le_max_left s.length t.length) m
      have ht := (h _ (Nat.lt_succ_self _) m m.mem_all).symm.trans hs
      rw [Level.through_shift hs, Level.through_shift ht]

instance (s t : Text) : Decidable (SameLevels s t) :=
  decidable_of_iff _ sameLevels_iff.symm

theorem SameLevels.closed (h : SameLevels s t) (hs : Closed s) : Closed t :=
  (h .ground).symm.trans hs

theorem sameLevels_refl (s : Text) : SameLevels s s :=
  fun _ => rfl

theorem SameLevels.append (h : SameLevels s t) (h' : SameLevels u v) :
    SameLevels (s ++ u) (t ++ v) := by
  intro ℓ
  rw [Level.through_append, Level.through_append, h ℓ]
  exact congrArg _ (funext h')

namespace Reading

theorem group_string {q : Char} (h : c ≠ '\\') :
    group o cl d (some q) (c :: s) =
      Text.took c (group o cl d (if c = q then none else some q) s) := by
  rw [group.eq_def]
  split <;> simp_all

theorem group_plain :
    group o cl d none (c :: s) =
      if c = '"' ∨ c = '\'' then Text.took c (group o cl d (some c) s)
      else if c = o then Text.took c (group o cl (d + 1) none s)
      else if c = cl then
        match d with
        | 0 => some ([], s)
        | d + 1 => Text.took c (group o cl d none s)
      else Text.took c (group o cl d none s) := by
  rw [group.eq_def]
  split
  case h_4 _ _ _ heq =>
    cases heq
    rfl
  all_goals simp_all

theorem ne_backslash_of_group {p : Text × Text} (hs : ∀ x t, c = '\\' → s = x :: t → False)
    (h : group o cl d q s = some p) : c ≠ '\\' := by
  rintro rfl
  cases s with
  | nil => simp [group] at h
  | cons x t => exact hs x t rfl rfl

/-- Whether a text is a group does not depend on the text behind it. -/
theorem group_append (h : group o cl d q s = some (a, rest)) (v : Text) :
    group o cl d q (a ++ cl :: v) = some (a, v) := by
  fun_induction group o cl d q s generalizing a rest with
  | case1 => cases h
  | case2 d q c s ih =>
    obtain ⟨p, hp, he⟩ := Text.took_eq_some_iff.1 h
    obtain ⟨p', hp', rfl⟩ := Text.took_eq_some_iff.1 hp
    cases he
    simp [group, ih hp']
  | case3 d q c s hs ih =>
    obtain ⟨p, hp, he⟩ := Text.took_eq_some_iff.1 h
    cases he
    have hc := ne_backslash_of_group hs hp
    rw [List.cons_append, group_string hc, ih hp]
    rfl
  | case4 d c s hc ih =>
    obtain ⟨p, hp, he⟩ := Text.took_eq_some_iff.1 h
    cases he
    rw [List.cons_append, group_plain, if_pos hc, ih hp]
    rfl
  | case5 d s hc ih =>
    obtain ⟨p, hp, he⟩ := Text.took_eq_some_iff.1 h
    cases he
    rw [List.cons_append, group_plain, if_neg hc, if_pos rfl, ih hp]
    rfl
  | case6 s hc ho =>
    cases h
    rw [List.nil_append, group_plain, if_neg hc, if_neg ho, if_pos rfl]
  | case7 s d hc ho ih =>
    obtain ⟨p, hp, he⟩ := Text.took_eq_some_iff.1 h
    cases he
    rw [List.cons_append, group_plain, if_neg hc, if_neg ho, if_pos rfl]
    dsimp only
    rw [ih hp]
    rfl
  | case8 d c s hc ho hcl ih =>
    obtain ⟨p, hp, he⟩ := Text.took_eq_some_iff.1 h
    cases he
    rw [List.cons_append, group_plain, if_neg hc, if_neg ho, if_neg hcl, ih hp]
    rfl

/-- The quote that a group looks for at a level. -/
def quoteAt : Mode → Option Char
  | .plain => none
  | .inString q | .escaped q => some q.char

/-- The backslash that the character behind it belongs to. -/
def pendingAt : Mode → Text
  | .escaped _ => ['\\']
  | _ => []

theorem group_of_through {ℓ : Level} (h : ℓ.through a = some .ground) (rest : Text) :
    group '(' ')' ℓ.depth (quoteAt ℓ.mode) (pendingAt ℓ.mode ++ (a ++ ')' :: rest)) =
      some (pendingAt ℓ.mode ++ a, rest) := by
  induction a generalizing ℓ with
  | nil =>
    cases h
    simp [Level.ground, group, quoteAt, pendingAt]
  | cons c a ih =>
    obtain ⟨d, m⟩ := ℓ
    rw [Level.through_cons, Option.bind_eq_some_iff] at h
    obtain ⟨ℓ', hs, h⟩ := h
    have hg := ih h
    cases m with
    | escaped q =>
      cases hs
      simp_all [group, quoteAt, pendingAt]
    | inString q =>
      simp only [Level.step] at hs
      split at hs
      · cases hs
        simp_all [quoteAt, pendingAt]
      · rename_i hc
        simp only [quoteAt, pendingAt, List.nil_append, List.cons_append]
        rw [group_string hc]
        split at hs
        · cases hs
          simp_all [quoteAt, pendingAt]
        · cases hs
          simp_all [quoteAt, pendingAt]
    | plain =>
      simp only [Level.step] at hs
      simp only [quoteAt, pendingAt, List.nil_append, List.cons_append]
      rw [group_plain]
      repeat' split at hs
      all_goals cases hs
      all_goals simp_all [quoteAt, pendingAt, Quote.char]

theorem eq_plain_of_quoteAt {m : Mode} (h : quoteAt m = none) : m = .plain := by
  cases m with
  | plain => rfl
  | inString | escaped => cases h

theorem eq_inString_of_quoteAt {m : Mode} {c : Char} (hm : pendingAt m = [])
    (h : quoteAt m = some c) : ∃ q, m = .inString q ∧ q.char = c := by
  cases m with
  | plain => cases h
  | inString q => exact ⟨q, rfl, Option.some.inj h⟩
  | escaped => cases hm

theorem through_of_group {m : Mode} (hm : pendingAt m = [])
    (h : group '(' ')' d (quoteAt m) s = some (a, rest)) :
    Level.through ⟨d, m⟩ a = some .ground := by
  generalize hq : quoteAt m = q at h
  fun_induction group '(' ')' d q s generalizing a rest m with
  | case1 => cases h
  | case2 d c x s ih =>
    obtain ⟨p, hp, he⟩ := Text.took_eq_some_iff.1 h
    obtain ⟨p', hp', rfl⟩ := Text.took_eq_some_iff.1 hp
    cases he
    obtain ⟨q, rfl, rfl⟩ := eq_inString_of_quoteAt hm hq
    have ht := ih (m := .inString q) rfl rfl hp'
    simpa [Level.through_cons, Level.step] using ht
  | case3 d c x s hs ih =>
    obtain ⟨p, hp, he⟩ := Text.took_eq_some_iff.1 h
    cases he
    have hc := ne_backslash_of_group hs hp
    obtain ⟨q, rfl, rfl⟩ := eq_inString_of_quoteAt hm hq
    rw [Level.through_cons, Level.step]
    dsimp only
    rw [if_neg hc]
    split
    · rename_i hq
      exact ih (m := .plain) rfl (by simp [hq, quoteAt]) hp
    · rename_i hq
      exact ih (m := .inString q) rfl (by simp [hq, quoteAt]) hp
  | case4 d c s hc ih =>
    obtain ⟨p, hp, he⟩ := Text.took_eq_some_iff.1 h
    cases he
    obtain rfl := eq_plain_of_quoteAt hq
    rcases hc with rfl | rfl
    · simpa [Level.through_cons, Level.step] using ih (m := .inString .double) rfl rfl hp
    · simpa [Level.through_cons, Level.step] using ih (m := .inString .single) rfl rfl hp
  | case5 d s hc ih =>
    obtain ⟨p, hp, he⟩ := Text.took_eq_some_iff.1 h
    cases he
    obtain rfl := eq_plain_of_quoteAt hq
    simpa [Level.through_cons, Level.step] using ih (m := .plain) rfl rfl hp
  | case6 s hc ho =>
    cases h
    obtain rfl := eq_plain_of_quoteAt hq
    rfl
  | case7 s d hc ho ih =>
    obtain ⟨p, hp, he⟩ := Text.took_eq_some_iff.1 h
    cases he
    obtain rfl := eq_plain_of_quoteAt hq
    simpa [Level.through_cons, Level.step] using ih (m := .plain) rfl rfl hp
  | case8 d c s hc ho hcl ih =>
    obtain ⟨p, hp, he⟩ := Text.took_eq_some_iff.1 h
    cases he
    obtain rfl := eq_plain_of_quoteAt hq
    rw [not_or] at hc
    simpa [Level.through_cons, Level.step, hc, ho, hcl] using ih (m := .plain) rfl rfl hp

theorem parenthesized_eq_some_iff :
    parenthesized s = some (a, rest) ↔ s = a ++ ')' :: rest ∧ Closed a := by
  constructor
  · intro h
    exact ⟨eq_of_group h, through_of_group (m := .plain) rfl h⟩
  · rintro ⟨rfl, ha⟩
    exact group_of_through (ℓ := .ground) ha rest

end Reading

end ComponentSheet.Selector
