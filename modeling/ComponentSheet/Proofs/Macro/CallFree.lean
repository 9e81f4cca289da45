import ComponentSheet.Proofs.Macro.Called
import ComponentSheet.Proofs.Macro.Simultaneous

/-! Expanded selectors have no calls in them. -/
namespace ComponentSheet.Macro

open Selector

variable {d : Dialect} {ctx : Context} {kinds : List Kind} {k : Kind} {p new s t v w : Text}
  {q : Part} {g : Segment} {a b : Stage} {σ : List Substitution}

/-- The text shows no call of `kinds`. -/
def CallFree (kinds : List Kind) (s : Text) : Prop :=
  ∀ q ∈ shown kinds s, q.isCall = false

theorem callFree_iff : CallFree kinds s ↔ findCall kinds s = .ok none := by
  rw [findCall_eq, firstCall_eq_none_iff, CallFree]

theorem containsCall_iff : containsCall s = false ↔ CallFree Kind.all s :=
  containsCall_eq_false_iff.trans shown_eq_letters_iff

theorem called?_eq_none_iff : q.called? = none ↔ q.isCall = false := by
  cases q <;> simp [Part.called?, Part.isCall]

theorem callFree_iff_calls : CallFree kinds s ↔ calls kinds s = [] := by
  simp only [CallFree, calls_eq, List.filterMap_eq_nil_iff, called?_eq_none_iff]

theorem CallFree.among (h : CallFree Kind.all s) (kinds : List Kind) : CallFree kinds s := by
  have hs : shown Kind.all s = letters s := shown_eq_letters_iff.2 h
  refine shown_eq_letters_iff.1 ?_
  rw [shown_among, hs, letters_among]

/-- A call in a text without calls of `kinds` is of another kind, and so are those in it. -/
theorem CallFree.of_call (h : CallFree kinds s) (hq : .call k p ∈ shown Kind.all s) :
    k ∉ kinds ∧ CallFree kinds p := by
  have hamong : ∀ x ∈ (Part.call k p).among kinds, x.isCall = false := fun x hx =>
    h x (mem_shown_of_among hq hx)
  rw [Part.among] at hamong
  split at hamong
  · cases hamong _ (List.mem_singleton_self _)
  · rename_i hk
    exact ⟨hk, fun x hx => hamong x (by simp [hx])⟩

theorem CallFree.of_openCall (h : CallFree kinds s) (hq : .openCall k t ∈ shown Kind.all s) :
    k ∉ kinds := by
  intro hk
  cases h (.openCall k t) (mem_shown_of_among hq (by simp [Part.among, hk]))

theorem callFree_segment (hf : g.Formed) (hv : g.Stops v) :
    CallFree kinds (g.text ++ v) ↔
      (∀ q ∈ shownIn kinds g, q.isCall = false) ∧ CallFree kinds v := by
  rw [CallFree, shown_segment hf hv]
  exact List.forall_mem_append

theorem callFree_append (h : EndsBefore s v) (hs : CallFree kinds s) (hv : CallFree kinds v) :
    CallFree kinds (s ++ v) := by
  rw [CallFree, shown_append h]
  exact List.forall_mem_append.2 ⟨hs, hv⟩

theorem callFree_arguments {t : Token} {o : Text} (ha : t.arguments? = some (o, p))
    (h : ∀ q ∈ shownIn kinds (.token t), q.isCall = false) : callPart? kinds (.token t) = none := by
  cases hp : callPart? kinds (.token t) with
  | none => rfl
  | some q =>
    obtain ⟨j, rfl, -⟩ := callPart?_carrying_some (b := p) ha hp
    rw [shownIn, hp] at h
    cases h _ (List.mem_singleton.2 rfl)

/-- Where there are no calls of `kinds`, there are none with a text without such calls in the place
of a call of another kind. -/
theorem Splice.callFree {kinds' : List Kind} (h : Splice kinds' k p new v w)
    (hl : SameLevels (callToken k p).lexeme new) (hn : CallFree kinds new)
    (hv : CallFree kinds v) : CallFree kinds w := by
  induction h with
  | @here v hc he =>
    have hg : Segment.Formed (.token (callToken k p)) := hc
    exact callFree_append he hn ((callFree_segment hg trivial).1 hv).2
  | @behind g v w hg hs h ih =>
    obtain ⟨hp, hv⟩ := (callFree_segment hg hs).1 hv
    exact (callFree_segment hg (h.stops hs)).2 ⟨hp, ih hv⟩
  | @inside t o a b v ht ha _ h ih =>
    rw [CallFree, shown_arguments ht ha, List.forall_mem_append] at hv
    have hnone := callFree_arguments ha hv.1
    rw [shownIn_arguments ha hnone] at hv
    rw [CallFree, shown_carrying ht ha (h.closed hl ht ha), shownIn_carrying ha hnone]
    simp only [List.forall_mem_append] at hv ⊢
    exact ⟨⟨⟨hv.1.1.1, ih hv.1.1.2⟩, hv.1.2⟩, hv.2⟩

/-- The kinds of the first pass over a selector whose slots come last. -/
def primary : List Kind := [.component, .attr, .variant, .state]

/-- What stands for a slot disturbs nothing around it and shows no call that the first pass has not
seen. -/
def Substitution.Quiet (d : Dialect) (x : Substitution) : Prop :=
  d = .webComponent → x.call.kind = .content →
    Fits x.call.kind x.call.params x.replacement x.call.after ∧
      findCall primary x.replacement = .ok none

/-- Separate replacements are quiet. -/
theorem along_quiet_of_separable (hq : ∀ q ∈ parts Kind.all s, q.Shallow)
    (hs : Separable d ctx (parts Kind.all s)) : Along d ctx (·.Quiet d) ⟨d.passes, s⟩ := by
  refine (along_of_separable hq hs).mono fun x hx _ _ => ⟨hx.fits, ?_⟩
  exact callFree_iff.1 ((containsCall_iff.1 hx.callFree).among primary)

/-- No call of the passes that are over is left. -/
def Swept (d : Dialect) (a : Stage) : Prop :=
  ∃ past, d.passes = past ++ a.passes ∧ ∀ kinds ∈ past, CallFree kinds a.text

theorem past_cases {past rest : List (List Kind)} {kinds' : List Kind}
    (h : d.passes = past ++ kinds :: rest) (hk : kinds' ∈ past) :
    d = .webComponent ∧ kinds' = primary ∧ kinds = [.content] := by
  cases past with
  | nil => cases hk
  | cons x past =>
    cases d with
    | flat => simp [Dialect.passes] at h
    | webComponent =>
      simp only [Dialect.passes, List.cons_append, List.cons.injEq] at h
      obtain ⟨rfl, h⟩ := h
      cases past with
      | nil =>
        obtain ⟨rfl, -⟩ := List.cons.inj h
        exact ⟨rfl, List.mem_singleton.1 hk, rfl⟩
      | cons y past => simp at h

theorem swept_step (h : Swept d a) (hs : Step d ctx a σ b) (hx : ∀ x ∈ σ, x.Quiet d) :
    Swept d b := by
  obtain ⟨past, hp, ho⟩ := h
  cases hs with
  | @substitute kinds rest s c r hf hr =>
    refine ⟨past, hp, fun kinds' hk => ?_⟩
    -- Behind a pass that is over, only slots are replaced.
    obtain ⟨hd, rfl, rfl⟩ := past_cases hp hk
    have hc : c.kind = .content := by
      obtain ⟨pre, post, hl, -⟩ := exists_of_firstCall (findCall_eq _ _ ▸ hf)
      simpa using mem_kinds_of_shown (by rw [hl]; simp : .call c.kind c.params ∈ shown [.content] s)
    obtain ⟨hfit, hr'⟩ := hx ⟨c, r⟩ (by simp) hd hc
    exact (splice_of_findCall hf hfit).callFree hfit.sameLevels (callFree_iff.2 hr') (ho _ hk)
  | @advance kinds rest s hf =>
    refine ⟨past ++ [kinds], by simp [hp], fun kinds' hk => ?_⟩
    rcases List.mem_append.1 hk with hk | hk
    · exact ho kinds' hk
    · obtain rfl := List.mem_singleton.1 hk
      exact callFree_iff.2 hf

theorem containsCall_of_swept (h : Swept d ⟨[], s⟩) : containsCall s = false := by
  obtain ⟨past, hp, ho⟩ := h
  rw [List.append_nil] at hp
  subst hp
  refine containsCall_iff.2 fun q hq => ?_
  cases q with
  | plain t => rfl
  | call k p =>
    obtain ⟨kinds, hm, hk⟩ := exists_pass d k
    exact absurd hk ((ho kinds hm).of_call hq).1
  | openCall k rest =>
    obtain ⟨kinds, hm, hk⟩ := exists_pass d k
    exact absurd hk ((ho kinds hm).of_openCall hq)

/-- An expanded selector has no call in it. -/
theorem containsCall_of_expand (hn : ∀ c ∈ ctx.component, isNameChar c)
    (hx : Along d ctx (·.Quiet d) ⟨d.passes, s⟩) (h : expand d ctx s = .ok t) :
    containsCall t = false := by
  obtain ⟨σ, b, hr, he⟩ := exists_run_expand (d := d) (notMem_of_isNameChar hn) s
  rw [h] at he
  cases he
  refine containsCall_of_swept (hr.keeps hx (⟨[], rfl, nofun⟩ : Swept d _) ?_)
  intro a b σ hs hx h
  exact swept_step h hs hx

theorem callFree_separated (h : CallFree kinds s) : CallFree kinds (',' :: '\n' :: s) := by
  have hc : CallFree kinds ((Segment.token .comma).text ++ '\n' :: s) ↔ _ :=
    callFree_segment trivial trivial
  have hb : CallFree kinds ((Segment.blanks ['\n']).text ++ s) ↔ _ :=
    callFree_segment (by decide : (['\n'] : Text).all isBlank) trivial
  refine hc.2 ⟨?_, hb.2 ⟨?_, h⟩⟩
  · intro q hq
    exact isCall_of_mem_letters hq
  · intro q hq
    exact isCall_of_mem_letters hq

/-- Entries without calls make a list without calls, if none but the last reaches behind its
comma. -/
theorem containsCall_ofEntries {l : List Text} (h : ∀ e ∈ l, containsCall e = false)
    (he : ∀ e ∈ l.dropLast, EndsBefore e [',']) : containsCall (ofEntries l) = false := by
  rw [containsCall_iff]
  induction l with
  | nil => simp [ofEntries, Text.join, CallFree]
  | cons e l ih =>
    have hfree := containsCall_iff.1 (h e (by simp))
    cases l with
    | nil => simpa [ofEntries, Text.join] using hfree
    | cons e' l =>
      rw [List.dropLast_cons_cons, List.forall_mem_cons] at he
      rw [List.forall_mem_cons] at h
      have hl := callFree_separated (ih h.2 he.2)
      have hends : EndsBefore e (',' :: '\n' :: ofEntries (e' :: l)) :=
        he.1.of_head (Or.inl rfl)
      have ht : ofEntries (e :: e' :: l) = e ++ ',' :: '\n' :: ofEntries (e' :: l) := by
        simp [ofEntries, Text.join]
      rw [ht]
      exact callFree_append hends hfree hl

end ComponentSheet.Macro
