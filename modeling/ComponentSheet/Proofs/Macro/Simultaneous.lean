import ComponentSheet.Proofs.Macro.Splice
import ComponentSheet.Proofs.Macro.Termination

/-! Expansion call after call gives what replacing all calls at once gives. -/
namespace ComponentSheet.Macro

open Selector

variable {d : Dialect} {ctx : Context} {kinds : List Kind} {k : Kind} {p r s word : Text}
  {l m pre post : List Part} {q x : Part} {a b : Stage} {σ : List Substitution}

/-- A call is closed and has its parameters, and they hold no calls. -/
def Part.Complete : Part → Prop
  | plain _ => True
  | call k p =>
    p.trim ≠ [] ∧ (k = .content → (slotAndContent p.trim).1 ≠ []) ∧ containsCall p = false
  | openCall .. => False

instance (q : Part) : Decidable q.Complete := by
  unfold Part.Complete
  split <;> infer_instance

/-- The parameters of a call hold no calls. -/
def Part.Shallow : Part → Prop
  | call _ p => containsCall p = false
  | _ => True

/-- What takes the place of a call fits there and makes no call. -/
def Part.Separable (d : Dialect) (ctx : Context) (behind : Text) : Part → Prop
  | call k p =>
    match d.resolve ctx k p with
    | .ok r => Fits k p r behind ∧ containsCall r = false
    | .error _ => True
  | _ => True

instance (behind : Text) (q : Part) : Decidable (q.Separable d ctx behind) := by
  unfold Part.Separable
  repeat' split
  all_goals infer_instance

def Complete (l : List Part) : Prop :=
  ∀ q ∈ l, q.Complete

instance (l : List Part) : Decidable (Complete l) :=
  inferInstanceAs (Decidable (∀ q ∈ l, q.Complete))

def Separable (d : Dialect) (ctx : Context) : List Part → Prop
  | [] => True
  | q :: l => q.Separable d ctx (textOf l) ∧ Separable d ctx l

instance decidableSeparable (d : Dialect) (ctx : Context) :
    (l : List Part) → Decidable (Separable d ctx l)
  | [] => .isTrue trivial
  | q :: l =>
    have := decidableSeparable d ctx l
    inferInstanceAs (Decidable (q.Separable d ctx (textOf l) ∧ Separable d ctx l))

def replacement (d : Dialect) (ctx : Context) : Part → Text
  | .call k p =>
    match d.resolve ctx k p with
    | .ok r => r
    | .error _ => (Part.call k p).text
  | q => q.text

/-- The text with the place of each call taken by what the call stands for. -/
def simultaneous (d : Dialect) (ctx : Context) (l : List Part) : Text :=
  l.flatMap (replacement d ctx)

theorem Complete.spelled (h : Complete l) : Complete (spelled l) := by
  intro q hq
  cases q with
  | plain t => trivial
  | call | openCall => exact h _ ((mem_spelled_iff rfl).1 hq)

theorem separable_letters_append (h : Separable d ctx l) (s : Text) :
    Separable d ctx (letters s ++ l) := by
  induction s with
  | nil => exact h
  | cons c s ih => exact ⟨trivial, ih⟩

theorem Separable.spelled (h : Separable d ctx l) : Separable d ctx (spelled l) := by
  induction l with
  | nil => exact h
  | cons x l ih =>
    have hx := h.1
    rw [← textOf_spelled] at hx
    cases x with
    | plain t => exact separable_letters_append (ih h.2) t
    | call | openCall => exact ⟨hx, ih h.2⟩

theorem simultaneous_letters (s : Text) : simultaneous d ctx (letters s) = s := by
  induction s with
  | nil => rfl
  | cons c s ih => exact congrArg (c :: ·) ih

theorem simultaneous_append :
    simultaneous d ctx (l ++ m) = simultaneous d ctx l ++ simultaneous d ctx m :=
  List.flatMap_append

theorem simultaneous_spelled : simultaneous d ctx (spelled l) = simultaneous d ctx l := by
  induction l with
  | nil => rfl
  | cons x l ih =>
    rw [spelled_cons, simultaneous_append, ih]
    cases x with
    | plain t => exact congrArg (· ++ _) (simultaneous_letters t)
    | call | openCall => simp [Part.spelled, simultaneous]

theorem exists_resolve (h : (Part.call k p).Complete) : ∃ r, d.resolve ctx k p = .ok r := by
  obtain ⟨hp, hs, -⟩ := h
  cases k with
  | content => simp [Dialect.resolve, hp, hs]
  | component | attr | variant | state => simp [Dialect.resolve, hp]

theorem Part.Complete.shallow (h : q.Complete) : q.Shallow := by
  cases q with
  | plain | openCall => trivial
  | call k p => exact h.2.2

/-- A shallow call hides no other one, so that among fewer kinds there are no other calls. -/
theorem Part.Shallow.of_among (h : x.Shallow) (hm : q ∈ x.among kinds) (hq : q.isCall) :
    x.among kinds = [q] ∧ x = q := by
  cases x with
  | plain t =>
    obtain rfl := List.mem_singleton.1 hm
    cases hq
  | call k p =>
    rw [Part.among] at hm ⊢
    split at hm
    · rename_i hk
      obtain rfl := List.mem_singleton.1 hm
      exact ⟨if_pos hk, rfl⟩
    · have hp := containsCall_eq_false_iff.1 h
      rw [shown_among, hp, letters_among, ← letters_append, ← letters_append] at hm
      simp [isCall_of_mem_letters hm] at hq
  | openCall k rest =>
    rw [Part.among] at hm ⊢
    split at hm
    · rename_i hk
      obtain rfl := List.mem_singleton.1 hm
      exact ⟨if_pos hk, rfl⟩
    · simp [isCall_of_mem_letters hm] at hq

theorem exists_of_findCall (h : ∀ q ∈ shown Kind.all s, q.Shallow) {c : Call}
    (hf : findCall kinds s = .ok (some c)) :
    ∃ pre post, shown Kind.all s = pre ++ .call c.kind c.params :: post ∧ c.before = textOf pre ∧
      c.after = textOf post := by
  rw [findCall_eq, shown_among] at hf
  obtain ⟨pre, post, hl, -, hb, ha, -⟩ := exists_of_firstCall hf
  obtain ⟨l₁, x, l₂, y, z, hs, hx, rfl, rfl⟩ := split_flatMap hl
  have hm : Part.call c.kind c.params ∈ x.among kinds := by simp [hx]
  obtain ⟨ho, rfl⟩ := (h x (by simp [hs])).of_among hm rfl
  rw [ho] at hx
  obtain ⟨rfl, rfl⟩ : y = [] ∧ z = [] := by
    cases y with
    | nil => simpa using hx
    | cons => simp at hx
  exact ⟨l₁, l₂, hs, by simp [hb, textOf_flatMap_among], by simp [ha, textOf_flatMap_among]⟩

theorem mem_replaced (hm : q ∈ pre ++ letters r ++ post) (hq : q.isCall) (x : Part) :
    q ∈ pre ++ x :: post := by
  simp only [List.mem_append, List.mem_cons] at hm ⊢
  rcases hm with (hm | hm) | hm
  · exact Or.inl hm
  · simp [isCall_of_mem_letters hm] at hq
  · exact Or.inr (Or.inr hm)

theorem Complete.replaced (h : Complete (pre ++ x :: post)) (r : Text) :
    Complete (pre ++ letters r ++ post) := by
  intro q hq
  cases q with
  | plain t => trivial
  | call | openCall => exact h _ (mem_replaced hq rfl x)

theorem Part.Separable.of_front {v w : Text} (h : x.Separable d ctx v)
    (hw : w.head? = v.head? ∨ v.head?.any isNameChar) : x.Separable d ctx w := by
  cases x with
  | plain | openCall => trivial
  | call k p =>
    unfold Part.Separable at h ⊢
    dsimp only at h ⊢
    split
    · rename_i r hr
      rw [hr] at h
      exact ⟨h.1.of_front hw, h.2⟩
    · trivial

theorem Separable.replaced (h : Separable d ctx (pre ++ .call k p :: post)) (r : Text) :
    Separable d ctx (pre ++ letters r ++ post) := by
  induction pre with
  | nil => exact separable_letters_append h.2 r
  | cons x pre ih =>
    refine ⟨h.1.of_front ?_, ih h.2⟩
    simp only [textOf_append, textOf_cons, List.append_eq, List.append_assoc]
    exact head_append (Or.inr (head_callToken k p (textOf post))) _

/-- What holds at each stage on the way from a text to the word it is replaced by. -/
structure Sound (d : Dialect) (ctx : Context) (word : Text) (a : Stage) : Prop where
  complete : Complete (shown Kind.all a.text)
  separable : Separable d ctx (shown Kind.all a.text)
  kinds : ∀ k p, .call k p ∈ shown Kind.all a.text → ∃ kinds ∈ a.passes, k ∈ kinds
  word : simultaneous d ctx (shown Kind.all a.text) = word

theorem Separable.of_mem (h : Separable d ctx (pre ++ x :: post)) :
    x.Separable d ctx (textOf post) := by
  induction pre with
  | nil => exact h.1
  | cons _ _ ih => exact ih h.2

/-- Replacing one call leaves the others as they are. -/
theorem shown_replaced (hs : Separable d ctx (pre ++ .call k p :: post))
    (hl : shown Kind.all s = pre ++ .call k p :: post) (hr : d.resolve ctx k p = .ok r) :
    shown Kind.all (textOf pre ++ r ++ textOf post) = pre ++ letters r ++ post := by
  have hf := hs.of_mem
  simp only [Part.Separable, hr] at hf
  rw [(splice_of_shown hl hf.1).2, containsCall_eq_false_iff.1 hf.2]

/-- One of the calls of `l`, with a replacement that disturbs nothing around it and shows no
call. -/
structure Substitution.Separate (d : Dialect) (ctx : Context) (l : List Part) (x : Substitution) :
    Prop where
  mem : .call x.call.kind x.call.params ∈ l
  resolve : d.resolve ctx x.call.kind x.call.params = .ok x.replacement
  fits : Fits x.call.kind x.call.params x.replacement x.call.after
  callFree : containsCall x.replacement = false

/-- The calls of a text are calls of `l` that hold no others and can be replaced separately. -/
structure Loose (d : Dialect) (ctx : Context) (l : List Part) (s : Text) : Prop where
  mem : ∀ q ∈ shown Kind.all s, q.isCall → q ∈ l
  shallow : ∀ q ∈ shown Kind.all s, q.Shallow
  separable : Separable d ctx (shown Kind.all s)

theorem loose_step (h : Loose d ctx l a.text) (hs : Step d ctx a σ b) :
    Loose d ctx l b.text ∧ ∀ x ∈ σ, x.Separate d ctx l := by
  obtain ⟨hm, hq, hp⟩ := h
  cases hs with
  | @substitute kinds rest s c r hf hr =>
    obtain ⟨pre, post, hl, hb, ha⟩ := exists_of_findCall hq hf
    dsimp only at hm hq hp
    rw [hl] at hm hq hp
    have ht : shown Kind.all (c.replacedBy r) = pre ++ letters r ++ post := by
      rw [Call.replacedBy, hb, ha]
      exact shown_replaced hp hl hr
    have hsep := hp.of_mem
    simp only [Part.Separable, hr] at hsep
    constructor
    · refine ⟨fun q hq hc => ?_, fun q hq' => ?_, ?_⟩ <;> dsimp only at *
      · exact hm q (mem_replaced (ht ▸ hq) hc _) hc
      · cases q with
        | plain | openCall => trivial
        | call => exact hq _ (mem_replaced (ht ▸ hq') rfl _)
      · exact ht ▸ hp.replaced r
    · intro x hx
      obtain rfl := List.mem_singleton.1 hx
      exact ⟨hm _ (by simp) rfl, hr, by rw [ha]; exact hsep.1, hsep.2⟩
  | advance hf => exact ⟨⟨hm, hq, hp⟩, by simp⟩

theorem along_of_loose (h : Loose d ctx l a.text) : Along d ctx (·.Separate d ctx l) a := by
  intro σ b hr
  induction hr with
  | refl => exact nofun
  | head hs _ ih =>
    obtain ⟨hb, hσ⟩ := loose_step h hs
    exact List.forall_mem_append.2 ⟨hσ, ih hb⟩

/-- Where no call holds another one and each can be replaced separately, they are so replaced, also
when the expansion fails at one. -/
theorem along_of_separable (hq : ∀ q ∈ parts Kind.all s, q.Shallow)
    (hs : Separable d ctx (parts Kind.all s)) :
    Along d ctx (·.Separate d ctx (parts Kind.all s)) ⟨d.passes, s⟩ := by
  refine along_of_loose ⟨fun q hm hc => (mem_shown_iff hc).1 hm, fun q hm => ?_, hs.spelled⟩
  cases q with
  | plain | openCall => trivial
  | call => exact hq _ ((mem_shown_iff rfl).1 hm)

theorem sound_step (h : Sound d ctx word a) (hs : Step d ctx a σ b) : Sound d ctx word b := by
  obtain ⟨hc, hp, hk, hw⟩ := h
  cases hs with
  | @substitute kinds rest s c r hf hr =>
    obtain ⟨pre, post, hl, hb, ha⟩ := exists_of_findCall (fun q hq => (hc q hq).shallow) hf
    dsimp only at hc hp hk hw
    rw [hl] at hc hp hk hw
    have ht : shown Kind.all (c.replacedBy r) = pre ++ letters r ++ post := by
      rw [Call.replacedBy, hb, ha]
      exact shown_replaced hp hl hr
    have hone : simultaneous d ctx [.call c.kind c.params] = r := by
      simp [simultaneous, replacement, hr]
    refine ⟨?_, ?_, fun k p hm => ?_, ?_⟩ <;> dsimp only
    · exact ht ▸ hc.replaced r
    · exact ht ▸ hp.replaced r
    · exact hk k p (mem_replaced (ht ▸ hm) rfl _)
    · rw [ht, ← hw, List.append_cons, simultaneous_append, simultaneous_append,
        simultaneous_append, simultaneous_append, simultaneous_letters, hone]
  | @advance kinds rest s hf =>
    refine ⟨hc, hp, fun k p hm => ?_, hw⟩
    obtain ⟨kinds', hk', hm'⟩ := hk k p hm
    rcases List.mem_cons.1 hk' with rfl | hk'
    · have hcall : .call k p ∈ shown kinds' s :=
        mem_shown_of_among hm (by simp [Part.among, hm'])
      rw [findCall_eq_none_iff.1 hf] at hcall
      cases isCall_of_mem_letters hcall
    · exact ⟨kinds', hk', hm'⟩

theorem sound_run (h : Sound d ctx word a) (hr : Run d ctx a σ b) : Sound d ctx word b := by
  induction hr with
  | refl a => exact h
  | head hs _ ih => exact ih (sound_step h hs)

theorem eq_of_sound {res : Except Failure Text} (h : Sound d ctx word a) (he : Ends d ctx a res) :
    res = .ok word := by
  obtain ⟨hc, -, hk, hw⟩ := h
  cases he with
  | done s =>
    have hs : shown Kind.all s = letters s := by
      refine shown_eq_letters_iff.2 fun q hq => ?_
      cases q with
      | plain t => rfl
      | call k p =>
        obtain ⟨kinds, hm, -⟩ := hk k p hq
        cases hm
      | openCall k rest => exact (hc _ hq).elim
    dsimp only at hw
    rw [← hw, hs, simultaneous_letters]
  | @faulty kinds rest s e hf =>
    rw [findCall_eq, shown_among] at hf
    rcases exists_of_firstCall_error hf with ⟨k, t, hm⟩ | ⟨k, p, hm, hp⟩
    · obtain ⟨x, hx, hm⟩ := List.mem_flatMap.1 hm
      obtain ⟨-, rfl⟩ := (hc x hx).shallow.of_among hm rfl
      exact (hc _ hx).elim
    · obtain ⟨x, hx, hm⟩ := List.mem_flatMap.1 hm
      obtain ⟨-, rfl⟩ := (hc x hx).shallow.of_among hm rfl
      exact absurd hp (hc _ hx).1
  | @unresolved kinds rest s c e hf hr =>
    obtain ⟨pre, post, hl, -, -⟩ := exists_of_findCall (fun q hq => (hc q hq).shallow) hf
    obtain ⟨r, hok⟩ : ∃ r, d.resolve ctx c.kind c.params = .ok r :=
      exists_resolve (hc (.call c.kind c.params) (by simp [hl]))
    cases hok.symm.trans hr

theorem sound_start (hc : Complete (parts Kind.all s)) (hs : Separable d ctx (parts Kind.all s)) :
    Sound d ctx (simultaneous d ctx (parts Kind.all s)) ⟨d.passes, s⟩ :=
  ⟨hc.spelled, hs.spelled, fun k _ _ => exists_pass d k, simultaneous_spelled⟩

theorem expand_eq_of_sound (hn : ∀ c ∈ ctx.component, isNameChar c)
    (h : Sound d ctx word ⟨d.passes, s⟩) : expand d ctx s = .ok word := by
  obtain ⟨σ, b, hr, he⟩ := exists_run_expand (d := d) (notMem_of_isNameChar hn) s
  exact eq_of_sound (sound_run h hr) he

/-- The calls of a selector can be replaced one after the other, in several passes, as long as none
of the replacements disturbs its surroundings: the result is that of replacing all of them at
once, where they were found first. -/
theorem expand_eq_simultaneous (hn : ∀ c ∈ ctx.component, isNameChar c)
    (hc : Complete (parts Kind.all s)) (hs : Separable d ctx (parts Kind.all s)) :
    expand d ctx s = .ok (simultaneous d ctx (parts Kind.all s)) :=
  expand_eq_of_sound hn (sound_start hc hs)

theorem expand_eq_simultaneous_nested :
    let ctx : Context := ⟨"Button".toList, some ":host".toList⟩
    let s := "content(a, b):not(state(:c)) component(D)".toList
    ((∀ c ∈ ctx.component, isNameChar c) ∧ Complete (parts Kind.all s) ∧
      Separable .webComponent ctx (parts Kind.all s)) ∧
    expand .webComponent ctx s = .ok (simultaneous .webComponent ctx (parts Kind.all s)) ∧
    simultaneous .webComponent ctx (parts Kind.all s) =
      "slot[name=\"a\"]::slotted(b):not(&(:c)) spectrum-d".toList := by
  intro ctx s
  have hn : ∀ c ∈ ctx.component, isNameChar c := List.all_eq_true.1 (by decide)
  have hc : Complete (parts Kind.all s) := by decide +kernel
  have hs : Separable .webComponent ctx (parts Kind.all s) := by decide +kernel
  exact ⟨⟨hn, hc, hs⟩, expand_eq_simultaneous hn hc hs, by decide +kernel⟩

/-- What takes the place of a call can run into the next call, close a string that the call does not
open, or be a call: each alone makes a difference. -/
theorem expand_ne_simultaneous :
    let ctx : Context := ⟨"Button".toList, none⟩
    let joined := "content(a)component(b)".toList
    let opened := ":not(content(a\",b\")) component(c)".toList
    let called := "component(A CONTENT(x))".toList
    (Complete (parts Kind.all joined) ∧
      simultaneous .flat ctx (parts Kind.all joined) = ".spectrum-Button-a.spectrum-b".toList ∧
      expand .flat ctx joined = .ok ".spectrum-Button-acomponent(b)".toList) ∧
    (Complete (parts Kind.all opened) ∧
      simultaneous .flat ctx (parts Kind.all opened) =
        ":not(.spectrum-Button-a\") .spectrum-c".toList ∧
      expand .flat ctx opened = .ok ":not(.spectrum-Button-a\") component(c)".toList) ∧
    (Complete (parts Kind.all called) ∧
      simultaneous .webComponent ctx (parts Kind.all called) = "spectrum-a content(x)".toList ∧
      expand .webComponent ctx called =
        .ok "spectrum-a slot[name=\"x\"]::slotted(*)".toList) := by
  decide +kernel

end ComponentSheet.Macro
