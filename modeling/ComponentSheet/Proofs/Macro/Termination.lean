import ComponentSheet.Proofs.Macro.Run
import ComponentSheet.Proofs.Text.Casing

/-! Expansion ends: each replacement takes a parenthesis that none gives back. -/
namespace ComponentSheet.Macro

variable {b b' s t u : Text} {c : Char} {k : Kind} {d : Dialect} {ctx : Context}

/-- Whether a parenthesis cannot be that of a call, by the text in front of it, read backwards:
`:host(`, `::slotted(` and `&(`, which replacements write, end like this, and no kind does. -/
def spent : Text → Bool
  | 't' :: 's' :: _ | 'd' :: 'e' :: _ | '&' :: _ => true
  | _ => false

/-- The parentheses that may still be those of calls, in a text behind `before`, which is read
backwards. -/
def fresh (before : Text) : Text → Nat
  | [] => 0
  | c :: s => (if c = '(' ∧ spent before = false then 1 else 0) + fresh (c :: before) s

@[simp] theorem fresh_nil : fresh b [] = 0 := rfl

theorem fresh_append : fresh b (s ++ t) = fresh b s + fresh (s.reverse ++ b) t := by
  induction s generalizing b with
  | nil => simp
  | cons c s ih => simp [fresh, ih, Nat.add_assoc]

theorem fresh_le_count : fresh b s ≤ s.count '(' := by
  induction s generalizing b with
  | nil => simp
  | cons c s ih =>
    have hs := ih (b := c :: b)
    rw [fresh, List.count_cons]
    by_cases hc : c = '('
    · simp only [hc, true_and, beq_self_eq_true, if_true] at hs ⊢
      split <;> omega
    · simp [hc, hs]

theorem fresh_eq_zero (h : '(' ∉ s) : fresh b s = 0 := by
  have hs := fresh_le_count (b := b) (s := s)
  rw [List.count_eq_zero.2 h] at hs
  exact Nat.le_zero.1 hs

/-- Behind `b'` no parenthesis counts that does not count behind `b`. -/
structure Covers (b b' : Text) : Prop where
  spent : spent b → spent b'
  s : b.head? = some 's' → b'.head? = some 's'
  e : b.head? = some 'e' → b'.head? = some 'e'

theorem spent_cons_iff :
    spent (c :: b) ↔
      (c = 't' ∧ b.head? = some 's') ∨ (c = 'd' ∧ b.head? = some 'e') ∨ c = '&' := by
  constructor
  · intro h
    rw [spent.eq_def] at h
    split at h <;> simp_all
  · rintro (⟨rfl, hb⟩ | ⟨rfl, hb⟩ | rfl)
    · obtain ⟨b, rfl⟩ := List.head?_eq_some_iff.1 hb
      rfl
    · obtain ⟨b, rfl⟩ := List.head?_eq_some_iff.1 hb
      rfl
    · rfl

theorem covers_cons (h : Covers b b') (c : Char) : Covers (c :: b) (c :: b') := by
  refine ⟨fun hs => ?_, fun hc => hc, fun hc => hc⟩
  rw [spent_cons_iff] at hs ⊢
  exact hs.imp (fun hs => ⟨hs.1, h.s hs.2⟩) (Or.imp_left fun hs => ⟨hs.1, h.e hs.2⟩)

/-- The characters that a spent parenthesis can follow. -/
def openingChars : Text := ['s', 'e', 'd', 't', '&']

theorem covers_of_notMem (h : c ∉ openingChars) : Covers (c :: b) b' := by
  simp only [openingChars, List.mem_cons, List.not_mem_nil, or_false,
    not_or] at h
  refine ⟨fun hs => ?_, fun hs => ?_, fun hs => ?_⟩
  · rw [spent_cons_iff] at hs
    grind
  · grind
  · grind

theorem fresh_le_of_covers (h : Covers b b') : fresh b' s ≤ fresh b s := by
  induction s generalizing b b' with
  | nil => simp
  | cons c s ih =>
    have hs := ih (covers_cons h c)
    rw [fresh, fresh]
    by_cases hb : spent b
    · simp [hb, h.spent hb, hs]
    · simp only [hb]
      grind

theorem fresh_le_of_notMem (h : c ∉ openingChars) : fresh b' s ≤ fresh (c :: b) s :=
  fresh_le_of_covers (covers_of_notMem h)

theorem notMem_openingChars_of_isBlank (h : isBlank c) : c ∉ openingChars := by
  intro hc
  have hall : openingChars.any isBlank = false := by decide
  exact List.any_eq_false.1 hall c hc h

theorem fresh_trim_le (hc : c ∉ openingChars) : fresh b' s.trim ≤ fresh (c :: b) s := by
  obtain ⟨u, v, hs, hu, _⟩ := s.exists_eq_trim
  have ht : fresh b' s.trim ≤ fresh (u.reverse ++ c :: b) s.trim := by
    cases hr : u.reverse with
    | nil => exact fresh_le_of_notMem hc
    | cons x w =>
      have hx : x ∈ u := List.mem_reverse.1 (hr ▸ List.mem_cons_self)
      exact fresh_le_of_notMem (notMem_openingChars_of_isBlank (List.all_eq_true.1 hu x hx))
  have he := congrArg (fresh (c :: b)) hs
  rw [fresh_append, fresh_append] at he
  omega

theorem fresh_slotAndContent_le (b₁ b₂ : Text) (hc : c ∉ openingChars) :
    fresh b₁ (slotAndContent s).1 + fresh b₂ ((slotAndContent s).2.getD ['*']) ≤
      fresh (c :: b) s := by
  rw [slotAndContent]
  split
  · rename_i slot content h
    have he : fresh (c :: b) s = fresh (c :: b) (slot ++ ',' :: content) :=
      congrArg _ ((Selector.textOf_segments s).symm.trans (Selector.textOf_of_cutAtComma? h))
    have h₁ : fresh b₁ slot.trim ≤ fresh (c :: b) slot := fresh_trim_le hc
    have h₂ : fresh b₂ content.trim ≤ fresh (',' :: (slot.reverse ++ c :: b)) content :=
      fresh_trim_le (by decide)
    rw [fresh_append, fresh, if_neg (by simp)] at he
    dsimp only
    split
    · simp only [Option.getD_none]
      rw [fresh_eq_zero (s := ['*']) (by decide)]
      omega
    · simp only [Option.getD_some]
      omega
  · have h : fresh b₁ s ≤ fresh (c :: b) s := fresh_le_of_notMem hc
    simp only [Option.getD_none]
    rw [fresh_eq_zero (s := ['*']) (by decide)]
    omega

theorem isUpper_eq_false_of_mem (h : c ∈ openingChars) : isUpper c = false := by
  have hall : openingChars.any isUpper = false := by decide +kernel
  simpa using List.any_eq_false.1 hall c h

theorem lowered_of_mem (h : c ∈ '(' :: openingChars) : lowered c = [c] := by
  have hall : ('(' :: openingChars).all fun c => lowered c = [c] := by decide +kernel
  simpa using List.all_eq_true.1 hall c h

/-- No lower case is a parenthesis. -/
theorem eq_paren_of_mem_lowered (h : '(' ∈ lowered c) : c = '(' :=
  (eq_of_mem_lowered h (by decide)).symm

theorem fresh_lowered_le (h : Covers b b') :
    fresh b' (lowered c) ≤ if c = '(' ∧ spent b = false then 1 else 0 := by
  by_cases hc : c = '('
  · subst c
    have hs := h.spent
    rw [lowered_of_mem List.mem_cons_self, fresh, fresh_nil]
    grind
  · rw [fresh_eq_zero fun hm => hc (eq_paren_of_mem_lowered hm)]
    exact Nat.zero_le _

theorem covers_lowered (h : Covers b b') : Covers (c :: b) ((lowered c).reverse ++ b') := by
  by_cases hc : c ∈ openingChars
  · rw [lowered_of_mem (List.mem_cons_of_mem _ hc)]
    exact covers_cons h c
  · exact covers_of_notMem hc

theorem fresh_dashedAfter_le {before : Option Char} (h : Covers b b') :
    fresh b' (Text.dashedAfter before s) ≤ fresh b s := by
  induction s generalizing before b b' with
  | nil => simp [Text.dashedAfter]
  | cons c s ih =>
    rw [Text.dashedAfter, fresh]
    split
    · rename_i hd
      rw [if_neg (by simp [hd.1]), Nat.zero_add]
      exact ih (covers_of_notMem (by rw [hd.1]; decide))
    · split
      · rename_i hu
        have hc : c ∉ openingChars := fun hm => by simp [isUpper_eq_false_of_mem hm] at hu
        have hp : c ≠ '(' := by
          rintro rfl
          exact absurd hu.1 (by decide +kernel)
        rw [List.cons_append, fresh, if_neg (by simp), Nat.zero_add, fresh_append,
          fresh_eq_zero fun hm => hp (eq_paren_of_mem_lowered hm), Nat.zero_add]
        exact Nat.le_trans (ih (covers_of_notMem hc)) (Nat.le_add_left _ _)
      · rw [fresh_append]
        exact Nat.add_le_add (fresh_lowered_le h) (ih (covers_lowered h))

theorem fresh_dashed_le (h : Covers b b') : fresh b' s.dashed ≤ fresh b s :=
  fresh_dashedAfter_le h

theorem fresh_prefixed (h : '(' ∉ u) : fresh b (u ++ s) = fresh (u.reverse ++ b) s := by
  rw [fresh_append, fresh_eq_zero h, Nat.zero_add]

theorem fresh_suffixed (h : '(' ∉ u) : fresh b (s ++ u) = fresh b s := by
  rw [fresh_append, fresh_eq_zero h, Nat.add_zero]

theorem notMem_brand : '(' ∉ brand := by decide

theorem notMem_element (h : '(' ∉ ctx.component) :
    '(' ∉ '.' :: (blockName ctx.component ++ ['-']) := by
  have hb := notMem_brand
  simp only [blockName, List.mem_cons, List.mem_append, List.not_mem_nil, or_false, not_or]
  exact ⟨by decide, ⟨hb, by decide, h⟩, by decide⟩

theorem fresh_element (h : '(' ∉ ctx.component) :
    fresh b ('.' :: elementName ctx.component s) =
      fresh (('.' :: (blockName ctx.component ++ ['-'])).reverse ++ b) s := by
  have he : '.' :: elementName ctx.component s =
      '.' :: (blockName ctx.component ++ ['-']) ++ s := by
    simp [elementName]
  rw [he, fresh_prefixed (notMem_element h)]

theorem fresh_slotted : fresh b "\"]::slotted(".toList = 0 := by
  simp [fresh, spent]

theorem fresh_host : fresh b ":host([".toList = 0 := by
  simp [fresh, spent]

theorem fresh_content_le (h : '(' ∉ ctx.component) (hc : c ∉ openingChars) :
    fresh b' (d.content ctx (slotAndContent s).1 (slotAndContent s).2) ≤ fresh (c :: b) s := by
  cases d with
  | flat =>
    rw [Dialect.content_flat, fresh_element h]
    exact Nat.le_trans (Nat.le_add_right _ _) (fresh_slotAndContent_le _ [] hc)
  | webComponent =>
    rw [Dialect.content_webComponent, fresh_suffixed (by decide), List.append_assoc,
      List.append_assoc, fresh_prefixed (by simp), fresh_append, fresh_append,
      fresh_slotted, Nat.zero_add]
    exact fresh_slotAndContent_le _ _ hc

theorem fresh_component_le (hc : c ∉ openingChars) :
    fresh b' (d.component s) ≤ fresh (c :: b) s := by
  have hb : '(' ∉ '.' :: brand ++ ['-'] := by simp [notMem_brand]
  cases d with
  | flat =>
    rw [Dialect.component_flat, blockName,
      show '.' :: (brand ++ '-' :: s) = '.' :: brand ++ ['-'] ++ s by simp, fresh_prefixed hb]
    exact fresh_le_of_notMem hc
  | webComponent =>
    rw [Dialect.component_webComponent, blockName,
      show brand ++ '-' :: s.dashed = (brand ++ ['-']) ++ s.dashed by simp,
      fresh_prefixed (fun hm => hb (List.mem_cons_of_mem _ hm) : '(' ∉ brand ++ ['-'])]
    exact fresh_dashed_le (covers_of_notMem hc)

theorem fresh_variant_le (h : '(' ∉ ctx.component) (hc : c ∉ openingChars) :
    fresh b' (d.variant ctx s) ≤ fresh (c :: b) s := by
  cases d with
  | flat =>
    rw [Dialect.variant_flat, fresh_element h, fresh, if_neg (by simp), Nat.zero_add]
    exact fresh_le_of_notMem hc
  | webComponent =>
    rw [Dialect.variant_webComponent, fresh_suffixed (by simp), fresh_append, fresh_host,
      Nat.zero_add]
    exact fresh_le_of_notMem hc

theorem fresh_condition_le (hc : c ∉ openingChars) :
    fresh b' (if [':'].isPrefixOf s then s else '[' :: s ++ [']']) ≤ fresh (c :: b) s := by
  split
  · exact fresh_le_of_notMem hc
  · rw [fresh_suffixed (by decide), fresh, if_neg (by simp), Nat.zero_add]
    exact fresh_le_of_notMem hc

theorem fresh_state_le (hc : c ∉ openingChars) : fresh b' (d.state ctx s) ≤ fresh (c :: b) s := by
  cases d with
  | flat =>
    unfold Dialect.state
    dsimp only
    split
    · rw [fresh, if_neg (by simp), Nat.zero_add]
      exact fresh_le_of_notMem hc
    · rw [fresh_prefixed (by simp)]
      exact fresh_le_of_notMem hc
  | webComponent =>
    unfold Dialect.state
    dsimp only
    split
    · rw [List.cons_append, List.cons_append, fresh, if_neg (by simp), fresh,
        if_neg (by simp [spent]), fresh_suffixed (by decide), Nat.zero_add, Nat.zero_add]
      exact fresh_condition_le hc
    · rw [fresh, if_neg (by simp), Nat.zero_add]
      exact fresh_condition_le hc

/-- Of all that a call can stand for, nothing has more parentheses than the parameters. -/
theorem fresh_resolve_le {p r : Text} (h : '(' ∉ ctx.component) (hr : d.resolve ctx k p = .ok r)
    (hc : c ∉ openingChars) : fresh b' r ≤ fresh (c :: b) p := by
  have ht : fresh [' '] p.trim ≤ fresh (c :: b) p := fresh_trim_le hc
  refine Nat.le_trans ?_ ht
  have hs : ' ' ∉ openingChars := by decide
  obtain ⟨_, ⟨-, -, rfl⟩ | ⟨-, rfl⟩ | ⟨-, rfl⟩ | ⟨-, rfl⟩ | ⟨-, rfl⟩⟩ := Dialect.resolve_cases hr
  · exact fresh_content_le h hs
  · exact fresh_component_le hs
  · rw [Dialect.attr, fresh_element h]
    exact fresh_le_of_notMem hs
  · exact fresh_variant_le h hs
  · exact fresh_state_le hs

theorem notMem_name (k : Kind) : '(' ∉ k.name := by
  cases k <;> decide

theorem exists_name_eq (k : Kind) :
    ∃ u : Text, k.name = u ++ ['n', 't'] ∨ k.name = u ++ ['t', 'e'] := by
  cases k
  · exact ⟨"conte".toList, by decide⟩
  · exact ⟨"compone".toList, by decide⟩
  · exact ⟨"attribu".toList, by decide⟩
  · exact ⟨"varia".toList, by decide⟩
  · exact ⟨"sta".toList, by decide⟩

theorem fresh_name (k : Kind) : fresh b (k.name ++ ['(']) = 1 := by
  rw [fresh_prefixed (notMem_name k)]
  obtain ⟨u, hu | hu⟩ := exists_name_eq k <;> rw [hu] <;> simp [fresh, spent]

theorem fresh_call (call : Call) :
    fresh b call.text =
      1 + fresh ('(' :: (call.kind.name.reverse ++ b)) call.params := by
  rw [show call.text = (call.kind.name ++ ['(']) ++ call.params ++ [')'] by simp [Call.text],
    fresh_suffixed (by decide), fresh_append, fresh_name]
  simp

/-- Each replacement takes a parenthesis. -/
theorem fresh_replacedBy_lt {kinds : List Kind} {call : Call} {r : Text} (h : '(' ∉ ctx.component)
    (hf : findCall kinds s = .ok (some call))
    (hr : d.resolve ctx call.kind call.params = .ok r) :
    fresh [] (call.replacedBy r) < fresh [] s := by
  have hp : fresh (call.before.reverse ++ []) r ≤
      fresh ('(' :: (call.kind.name.reverse ++ (call.before.reverse ++ []))) call.params :=
    fresh_resolve_le h hr (by decide)
  have ha : fresh ((call.before ++ r).reverse ++ []) call.after ≤
      fresh ((call.before ++ call.text).reverse ++ []) call.after := by
    rw [show (call.before ++ call.text).reverse ++ [] =
      ')' :: (call.before ++ (call.kind.name ++ '(' :: call.params)).reverse by simp [Call.text]]
    exact fresh_le_of_notMem (by decide)
  have hs := congrArg (fresh []) (eq_of_findCall hf)
  rw [fresh_append, fresh_append, fresh_call] at hs
  rw [Call.replacedBy, fresh_append, fresh_append]
  omega

theorem fresh_step {a b : Stage} {σ : List Substitution} (h : '(' ∉ ctx.component)
    (hs : Step d ctx a σ b) : σ.length + fresh [] b.text ≤ fresh [] a.text := by
  cases hs with
  | substitute hf hr =>
    have hlt := fresh_replacedBy_lt h hf hr
    simp only [List.length_singleton]
    omega
  | advance hf => simp

theorem fresh_run {a b : Stage} {σ : List Substitution} (h : '(' ∉ ctx.component)
    (hr : Run d ctx a σ b) : σ.length + fresh [] b.text ≤ fresh [] a.text := by
  induction hr with
  | refl a => simp
  | head hs _ ih =>
    have hstep := fresh_step h hs
    rw [List.length_append]
    omega

/-- Each turn replaces a call or ends a pass. -/
theorem turns_step {a b : Stage} {σ : List Substitution} (h : '(' ∉ ctx.component)
    (hs : Step d ctx a σ b) :
    b.passes.length + fresh [] b.text < a.passes.length + fresh [] a.text := by
  cases hs with
  | substitute hf hr => exact Nat.add_lt_add_left (fresh_replacedBy_lt h hf hr) _
  | advance hf => simp

/-- Every stage has a run to the end. -/
theorem exists_run_ends (h : '(' ∉ ctx.component) (a : Stage) :
    ∃ σ b r, Run d ctx a σ b ∧ Ends d ctx b r := by
  generalize hn : a.passes.length + fresh [] a.text = n
  induction n using Nat.strongRecOn generalizing a with
  | ind n ih =>
    rcases step_or_ends d ctx a with ⟨σ, b, hs⟩ | ⟨r, he⟩
    · have hlt : b.passes.length + fresh [] b.text < n := hn ▸ turns_step h hs
      obtain ⟨τ, c, r, hr, he⟩ := ih _ hlt b rfl
      exact ⟨σ ++ τ, c, r, .head hs hr, he⟩
    · exact ⟨[], a, r, .refl a, he⟩

/-- A condition on all replacements is told by as many turns as there can be. -/
theorem checked_iff {P : Substitution → Prop} [DecidablePred P] {a : Stage} {n : Nat}
    (h : '(' ∉ ctx.component) (hn : a.passes.length + fresh [] a.text < n) :
    checked d ctx P n a ↔ Along d ctx P a := by
  refine ⟨along_of_checked, fun hx => ?_⟩
  induction n generalizing a with
  | zero => omega
  | succ n ih =>
    rcases step_or_ends d ctx a with ⟨σ, b, hs⟩ | ⟨r, he⟩
    · obtain ⟨hσ, hb⟩ := hx.step hs
      refine (checked_step hs).2 ⟨hσ, ih ?_ hb⟩
      have hlt := turns_step h hs
      omega
    · exact checked_ends he

/-- Whether all the replacements satisfy a condition can be computed. -/
def decidableAlong (d : Dialect) (P : Substitution → Prop) [DecidablePred P]
    (h : '(' ∉ ctx.component) (a : Stage) : Decidable (Along d ctx P a) :=
  decidable_of_iff _ (checked_iff h (Nat.lt_succ_self (a.passes.length + fresh [] a.text)))

theorem run_length_le {a b : Stage} {σ : List Substitution} (h : '(' ∉ ctx.component)
    (hr : Run d ctx a σ b) : σ.length ≤ a.text.count '(' := by
  have hf := fresh_run h hr
  have hc := fresh_le_count (b := []) (s := a.text)
  omega

theorem count_lt_budgetFor (ctx : Context) (s : Text) : s.count '(' < budgetFor ctx s := by
  have hc : s.count '(' < s.length + 1 := Nat.lt_succ_of_le List.count_le_length
  exact Nat.lt_of_lt_of_le hc (Nat.le_mul_of_pos_right _ (Nat.succ_pos _))

theorem notMem_of_isNameChar (h : ∀ c ∈ ctx.component, Selector.isNameChar c) :
    '(' ∉ ctx.component :=
  fun hm => absurd (h _ hm) (by decide)

/-- The expansion is the end of a run that has no budget. -/
theorem exists_run_expand (h : '(' ∉ ctx.component) (s : Text) :
    ∃ σ b, Run d ctx ⟨d.passes, s⟩ σ b ∧ Ends d ctx b (expand d ctx s) := by
  obtain ⟨σ, b, r, hr, he⟩ := exists_run_ends (d := d) h ⟨d.passes, s⟩
  have hn := Nat.lt_of_le_of_lt (run_length_le h hr) (count_lt_budgetFor ctx s)
  exact ⟨σ, b, hr, (expand_eq_of_run hr he hn).symm ▸ he⟩

/-- However the replacements make, join and lower-case names, all the passes over a selector make
at most as many of them as it has parentheses, and then there is a result. -/
theorem expand_within_parentheses (h : '(' ∉ ctx.component) (s : Text) :
    (∀ σ b, Run d ctx ⟨d.passes, s⟩ σ b → σ.length ≤ s.count '(') ∧
      ∃ σ b, Run d ctx ⟨d.passes, s⟩ σ b ∧ Ends d ctx b (expand d ctx s) :=
  ⟨fun _ _ hr => run_length_le h hr, exists_run_expand h s⟩

/-- A name becomes that of a macro here. -/
theorem expand_within_parentheses_lowered :
    let ctx : Context := ⟨"Button".toList, none⟩
    let s := "component(A CONTENT(x))".toList
    '(' ∉ ctx.component ∧ s.count '(' = 2 ∧
      expand .webComponent ctx s = .ok "spectrum-a slot[name=\"x\"]::slotted(*)".toList ∧
      (∀ σ b, Run .webComponent ctx ⟨Dialect.webComponent.passes, s⟩ σ b → σ.length ≤ 2) ∧
      ∃ σ b, Run .webComponent ctx ⟨Dialect.webComponent.passes, s⟩ σ b ∧
        Ends .webComponent ctx b (expand .webComponent ctx s) := by
  intro ctx s
  have hc : '(' ∉ ctx.component := by decide
  have hs : s.count '(' = 2 := by decide
  obtain ⟨hl, hr⟩ := expand_within_parentheses (d := .webComponent) hc s
  exact ⟨hc, hs, by decide +kernel, fun σ b h => hs ▸ hl σ b h, hr⟩

end ComponentSheet.Macro
