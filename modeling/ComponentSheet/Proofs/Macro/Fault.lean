import ComponentSheet.Proofs.Macro.CallFree
import ComponentSheet.Proofs.Macro.Kept

/-! Calls without parameters, and how they come to light. -/
namespace ComponentSheet.Macro

open Selector

variable {d : Dialect} {ctx : Context} {kinds : List Kind} {j k : Kind} {new p r s u v w x y : Text}
  {c : Kind × Option Text} {g : Segment} {a b : Stage} {σ : List Substitution}

/-- A call of `k` that is not closed or has no parameters, or a call with one in its parameters. -/
inductive Part.Faulty (k : Kind) : Part → Prop
  | unclosed (rest : Text) : Faulty k (openCall k rest)
  | blank {p : Text} (h : p.trim = []) : Faulty k (call k p)
  | within {j : Kind} {p : Text} {q : Part} (hq : q ∈ parts Kind.all p) (h : Faulty k q) :
      Faulty k (call j p)

/-- A faulty call stands in the text, at any depth. -/
def Faulty (k : Kind) (s : Text) : Prop :=
  ∃ q ∈ parts Kind.all s, q.Faulty k

/-- A call of `k` that is not closed or has no parameters, or a call whose replacement keeps one of
its parameters. Only calls of `kinds` are looked at. -/
inductive Exposed (d : Dialect) (ctx : Context) (kinds : List Kind) (k : Kind) :
    Kind × Option Text → Prop
  | unclosed : Exposed d ctx kinds k (k, none)
  | blank {p : Text} (h : p.trim = []) : Exposed d ctx kinds k (k, some p)
  | kept {j : Kind} {p w : Text} {c : Kind × Option Text} (hw : d.kept? ctx j p = some w)
      (hc : c ∈ calls kinds w) (h : Exposed d ctx kinds k c) : Exposed d ctx kinds k (j, some p)

def ExposedIn (d : Dialect) (ctx : Context) (kinds : List Kind) (k : Kind) (s : Text) : Prop :=
  ∃ c ∈ calls kinds s, Exposed d ctx kinds k c

/-- The kinds that are looked for up to the pass in which `k` is. -/
def Dialect.soughtWith : Dialect → Kind → List Kind
  | flat, _ | webComponent, .content => Kind.all
  | webComponent, _ => primary

/-- A replacement that disturbs nothing around it. That of a slot is read as it is written. -/
structure Substitution.Sits (d : Dialect) (x : Substitution) : Prop where
  fits : Fits x.call.kind x.call.params x.replacement x.call.after
  slot : d = .webComponent → x.call.kind = .content → ReadsAsSlot x.call.params x.replacement

instance (d : Dialect) (x : Substitution) : Decidable (x.Sits d) :=
  decidable_of_iff (_ ∧ (d = .webComponent → x.call.kind = .content →
    ReadsAsSlot x.call.params x.replacement)) ⟨fun h => ⟨h.1, h.2⟩, fun h => ⟨h.1, h.2⟩⟩

theorem exposedIn_append (h : EndsBefore u v) :
    ExposedIn d ctx kinds k (u ++ v) ↔ ExposedIn d ctx kinds k u ∨ ExposedIn d ctx kinds k v := by
  simp [ExposedIn, calls_append h, or_and_right, exists_or]

theorem exposedIn_segment (hf : g.Formed) (hv : g.Stops v) :
    ExposedIn d ctx kinds k (g.text ++ v) ↔
      (∃ c ∈ callsIn kinds g, Exposed d ctx kinds k c) ∨ ExposedIn d ctx kinds k v := by
  simp [ExposedIn, calls_segment hf hv, or_and_right, exists_or]

/-- What is called behind a comma is called in the whole text. -/
theorem mem_calls_of_cut? (h : cut? s = some (x, y)) (hc : c ∈ calls kinds y) :
    c ∈ calls kinds s := by
  obtain ⟨l, hl⟩ := segments_of_cut? h
  rw [calls_eq_flatMap kinds false, ← segments] at hc ⊢
  rw [hl, List.flatMap_append, List.flatMap_cons]
  exact List.mem_append_right _ (List.mem_append_right _ hc)

theorem exposedIn_of_cut? (h : cut? s = some (x, y)) (hy : ExposedIn d ctx kinds k y) :
    ExposedIn d ctx kinds k s := by
  obtain ⟨c, hc, he⟩ := hy
  exact ⟨c, mem_calls_of_cut? h hc, he⟩

/-- A pass over calls of `kinds` does not end while one is exposed. -/
theorem ExposedIn.findCall_ne (h : ExposedIn d ctx kinds k s) : findCall kinds s ≠ .ok none := by
  obtain ⟨c, hc, -⟩ := h
  intro hf
  rw [callFree_iff_calls.1 (callFree_iff.2 hf)] at hc
  cases hc

/-- The call that is replaced has parameters, and what is exposed in them is in the replacement. -/
theorem Exposed.of_resolve (hn : ∀ c ∈ ctx.component, isNameChar c) (hp : p.trim ≠ [])
    (hr : d.resolve ctx j p = .ok r)
    (hslot : d = .webComponent → j = .content → ReadsAsSlot p r)
    (h : Exposed d ctx kinds k (j, some p)) : ExposedIn d ctx kinds k r := by
  cases h with
  | blank hb => exact absurd hb hp
  | kept hw hc he => exact ⟨_, calls_of_resolve hn hr hw hslot ▸ hc, he⟩

/-- The calls of the text that has another text in the place of its first call. -/
theorem calls_replacedBy {c : Call} (hf : findCall kinds s = .ok (some c))
    (hx : Fits c.kind c.params r c.after) : ∃ l m, c.params.trim ≠ [] ∧
      calls kinds s = l ++ (c.kind, some c.params) :: m ∧
        calls kinds (c.replacedBy r) = l ++ calls kinds r ++ m := by
  rw [findCall_eq] at hf
  obtain ⟨pre, post, hl, -, hb, ha, hp⟩ := exists_of_firstCall hf
  rw [ha] at hx
  have hshown := (splice_of_shown hl hx).2
  rw [← hb, ← ha] at hshown
  refine ⟨pre.filterMap Part.called?, post.filterMap Part.called?, hp, ?_, ?_⟩
  · rw [calls_eq, hl, List.filterMap_append]
    rfl
  · rw [calls_eq, Call.replacedBy, hshown, List.filterMap_append, List.filterMap_append, ← calls_eq]

/-- A replacement in the pass in which the calls are looked for. -/
theorem ExposedIn.substitute (hn : ∀ c ∈ ctx.component, isNameChar c) {c : Call}
    (hf : findCall kinds s = .ok (some c)) (hr : d.resolve ctx c.kind c.params = .ok r)
    (hx : Substitution.Sits d ⟨c, r⟩) (h : ExposedIn d ctx kinds k s) :
    ExposedIn d ctx kinds k (c.replacedBy r) := by
  obtain ⟨l, m, hp, hs, ht⟩ := calls_replacedBy hf hx.fits
  obtain ⟨x, hm, he⟩ := h
  rw [hs, List.mem_append, List.mem_cons] at hm
  rw [ExposedIn, ht]
  rcases hm with hm | rfl | hm
  · exact ⟨x, by simp [hm], he⟩
  · obtain ⟨x, hm, he⟩ := he.of_resolve hn hp hr hx.slot
    exact ⟨x, by simp [hm], he⟩
  · exact ⟨x, by simp [hm], he⟩

/-- A content call is exposed behind a comma: there it comes into a slot. -/
def ExposedBehind (ctx : Context) (kinds : List Kind) (s : Text) : Prop :=
  ∃ x y, cut? s = some (x, y) ∧ ExposedIn .webComponent ctx kinds .content y

theorem exposed_content_iff : Exposed .webComponent ctx kinds .content (.content, some p) ↔
    p.trim = [] ∨ ExposedBehind ctx kinds p := by
  constructor
  · intro h
    cases h with
    | blank hb => exact .inl hb
    | kept hw hc he =>
      obtain ⟨x, y, hcut, hy⟩ := mem_calls_content_iff.1 ⟨_, hw, hc⟩
      exact .inr ⟨x, y, hcut, _, hy, he⟩
  · rintro (hb | ⟨x, y, hcut, c, hc, he⟩)
    · exact .blank hb
    · obtain ⟨w, hw, hc⟩ := mem_calls_content_iff.2 ⟨x, y, hcut, hc⟩
      exact .kept hw hc he

theorem exposedBehind_segment (hf : g.Formed) (hv : g.Stops v) :
    ExposedBehind ctx kinds (g.text ++ v) ↔
      if g = .token .comma then ExposedIn .webComponent ctx kinds .content v
      else ExposedBehind ctx kinds v := by
  rw [ExposedBehind, cut?_segment hf hv]
  split
  · constructor
    · rintro ⟨_, _, ⟨⟩, hy⟩
      exact hy
    · exact fun hy => ⟨[], v, rfl, hy⟩
  · constructor
    · rintro ⟨x, y, hcut, hy⟩
      obtain ⟨⟨x, y⟩, hv, hp⟩ := Option.map_eq_some_iff.1 hcut
      obtain ⟨-, rfl⟩ := Prod.mk.inj hp
      exact ⟨x, y, hv, hy⟩
    · rintro ⟨x, y, hv, hy⟩
      exact ⟨g.text ++ x, y, by rw [hv]; rfl, hy⟩

theorem EndsBefore.of_cut? (h : EndsBefore u v) (hu : cut? u = some (x, y)) : EndsBefore y v := by
  intro g hg
  obtain ⟨l, hl⟩ := segments_of_cut? hu
  refine h g ?_
  rw [hl, List.getLast?_append, List.getLast?_cons]
  rw [Option.mem_def] at hg ⊢
  rw [hg]
  rfl

/-- With a text in front that ends where it did. -/
theorem ExposedBehind.prepend (hu : EndsBefore u v) (h : ExposedBehind ctx kinds v) :
    ExposedBehind ctx kinds (u ++ v) := by
  obtain ⟨x, y, hcut, hy⟩ := h
  cases hcu : cut? u with
  | none => exact ⟨u ++ x, y, by rw [cut?_append hu hcu, hcut]; rfl, hy⟩
  | some p =>
    obtain ⟨x', y'⟩ := p
    have he := eq_of_cut? hcu
    refine ⟨x', y' ++ v, ?_, ?_⟩
    · rw [he] at hcu
      rw [he, List.append_assoc, List.cons_append]
      exact cut?_swap hcu (y' ++ v)
    · exact (exposedIn_append (hu.of_cut? hcu)).2 (.inr (exposedIn_of_cut? hcut hy))

theorem Splice.trim_ne_nil (h : Splice kinds j p new v w) : v.trim ≠ [] := by
  suffices hc : ∃ c ∈ v, isBlank c = false from hc.elim fun c hc => Text.trim_ne_nil hc.1 hc.2
  induction h with
  | here =>
    obtain ⟨c, n, hn, -, hb⟩ := Reading.exists_of_startsName (startsName_name j)
    exact ⟨c, by simp [callToken, Token.applied, hn], hb⟩
  | behind _ _ _ ih =>
    obtain ⟨c, hc, hb⟩ := ih
    exact ⟨c, List.mem_append_right _ hc, hb⟩
  | inside _ _ _ _ ih =>
    obtain ⟨c, hc, hb⟩ := ih
    exact ⟨c, by simp [hc], hb⟩

/-- The calls that the first pass leaves alone are content calls. -/
theorem eq_content_of_notMem (h : j ∉ primary) : j = .content := by
  cases j with
  | content => rfl
  | component | attr | variant | state => exact absurd (by decide) h

theorem eq_content_of_callPart? (hn : callPart? primary g = none)
    (h : callPart? Kind.all g = some (.call j p)) : j = .content := by
  obtain rfl := eq_of_callPart? h
  refine eq_content_of_notMem fun hj => ?_
  simp [callPart?, callToken, kindAmong?_name, hj] at hn

/-- A token with an exposed call in its arguments has one in what takes their place. -/
theorem exposed_carrying {t : Token} {o a b : Text} (ha : t.arguments? = some (o, a))
    (hn : callPart? primary (.token t) = none) (hne : a.trim ≠ [])
    (hin : ExposedIn .webComponent ctx Kind.all .content a →
      ExposedIn .webComponent ctx Kind.all .content b)
    (hbehind : ExposedBehind ctx Kind.all a → ExposedBehind ctx Kind.all b)
    (h : ∃ c ∈ callsIn Kind.all (.token t), Exposed .webComponent ctx Kind.all .content c) :
    ∃ c ∈ callsIn Kind.all (.token (t.carrying b)),
      Exposed .webComponent ctx Kind.all .content c := by
  cases hp : callPart? Kind.all (.token t) with
  | none =>
    rw [callsIn_arguments hp ha] at h
    rw [callsIn_arguments (callPart?_carrying hp) (Token.arguments?_carrying ha b)]
    exact hin h
  | some q =>
    obtain ⟨j, rfl, hq⟩ := callPart?_carrying_some (b := b) ha hp
    obtain rfl := eq_content_of_callPart? hn hp
    have hcall {t : Token} {a : Text}
        (ht : callPart? Kind.all (.token t) = some (.call .content a)) :
        callsIn Kind.all (.token t) = [(.content, some a)] := by
      rw [callsIn, shownIn, ht]
      rfl
    rw [hcall hp] at h
    rw [hcall hq]
    obtain ⟨c, hc, he⟩ := h
    obtain rfl := List.mem_singleton.1 hc
    refine ⟨_, List.mem_singleton_self _, exposed_content_iff.2 ?_⟩
    rcases exposed_content_iff.1 he with hblank | he
    · exact absurd hblank hne
    · exact .inr (hbehind he)

/-- What a call of a kind of the first pass is replaced by leaves a content call exposed that is so
outside of it, behind a comma or not. -/
theorem Splice.exposed (h : Splice primary j p new v w)
    (hl : SameLevels (callToken j p).lexeme new)
    (hlast : Exposed .webComponent ctx Kind.all .content (j, some p) →
      ExposedIn .webComponent ctx Kind.all .content new) :
    (ExposedIn .webComponent ctx Kind.all .content v →
      ExposedIn .webComponent ctx Kind.all .content w) ∧
    (ExposedBehind ctx Kind.all v → ExposedBehind ctx Kind.all w) := by
  induction h with
  | @here v hc he =>
    have hg : Segment.Formed (.token (callToken j p)) := hc
    have hcall : callsIn Kind.all (.token (callToken j p)) = [(j, some p)] := by
      rw [callsIn, shownIn_callToken]
      rfl
    rw [← Segment.text, exposedIn_segment hg trivial, exposedIn_append he, hcall,
      exposedBehind_segment hg trivial, if_neg (by simp [callToken])]
    refine ⟨fun h => ?_, ExposedBehind.prepend he⟩
    rcases h with ⟨c, hc, he⟩ | h
    · obtain rfl := List.mem_singleton.1 hc
      exact .inl (hlast he)
    · exact .inr h
  | @behind g v w hg hv hs ih =>
    rw [exposedIn_segment hg hv, exposedIn_segment hg (hs.stops hv), exposedBehind_segment hg hv,
      exposedBehind_segment hg (hs.stops hv)]
    refine ⟨Or.imp_right ih.1, ?_⟩
    split
    · exact ih.1
    · exact ih.2
  | @inside t o a b v ht ha hn hs ih =>
    have hb := Token.arguments?_carrying ha b
    have htext {t : Token} {o a : Text} (ha : t.arguments? = some (o, a)) :
        o ++ a ++ ')' :: v = (Segment.token t).text ++ v := by
      simp [Segment.text, Token.lexeme_of_arguments? ha]
    have hcomma {t : Token} {o a : Text} (ha : t.arguments? = some (o, a)) :
        Segment.token t ≠ .token .comma := by
      rintro ⟨⟩
      cases ha
    have hf : (Segment.token t).Formed := ht
    have hf' : (Segment.token (t.carrying b)).Formed :=
      Token.carrying_formed ht ha (hs.closed hl ht ha)
    have hv : (Segment.token t).Stops v := Token.stops_of_arguments? ha v
    have hv' : (Segment.token (t.carrying b)).Stops v := Token.stops_of_arguments? hb v
    rw [htext ha, htext hb, exposedIn_segment hf hv, exposedIn_segment hf' hv',
      exposedBehind_segment hf hv, exposedBehind_segment hf' hv', if_neg (hcomma ha),
      if_neg (hcomma hb)]
    exact ⟨Or.imp_left (exposed_carrying ha hn hs.trim_ne_nil ih.1 ih.2), id⟩

/-- Where the first pass finds nothing, the other one finds what is left. -/
theorem calls_content (h : CallFree primary s) : calls [.content] s = calls Kind.all s := by
  have hall : ∀ q ∈ shown Kind.all s, q.among [.content] = [q] := by
    intro q hq
    cases q with
    | plain t => rfl
    | call j p =>
      obtain rfl := eq_content_of_notMem (h.of_call hq).1
      rfl
    | openCall j rest =>
      obtain rfl := eq_content_of_notMem (h.of_openCall hq)
      rfl
  have hshown : (shown Kind.all s).flatMap (Part.among [.content]) = shown Kind.all s := by
    rw [List.flatMap, List.map_congr_left hall]
    exact List.flatMap_singleton' _
  rw [calls_eq, shown_among, hshown, ← calls_eq]

theorem callFree_content (h : CallFree kinds p) (hw : (slotAndContent p.trim).2 = some w) :
    CallFree kinds w := by
  rw [callFree_iff_calls] at h ⊢
  refine List.eq_nil_iff_forall_not_mem.2 fun x hx => ?_
  obtain ⟨_, _, hcut, hx⟩ := mem_calls_content_iff.1 ⟨w, hw, hx⟩
  have hmem := mem_calls_of_cut? hcut hx
  rw [h] at hmem
  cases hmem

/-- What is exposed at the end of the first pass is exposed in the other one. -/
theorem Exposed.content (h : Exposed .webComponent ctx Kind.all .content c)
    (hs : CallFree primary s) (hc : c ∈ calls Kind.all s) :
    Exposed .webComponent ctx [.content] .content c := by
  induction h generalizing s with
  | unclosed => exact .unclosed
  | blank hb => exact .blank hb
  | @kept j p w c hw hcw he ih =>
    obtain ⟨hj, hp⟩ := hs.of_call (mem_shown_of_mem_calls hc)
    obtain rfl := eq_content_of_notMem hj
    have hfree := callFree_content hp hw
    exact .kept hw ((calls_content hfree).symm ▸ hcw) (ih hfree hcw)

/-- A call is exposed to a pass that is to come or under way: to the running one, or to the second
one while the first one runs. -/
inductive Ahead (d : Dialect) (ctx : Context) (k : Kind) : Stage → Prop
  | running {kinds : List Kind} {rest : List (List Kind)} {s : Text}
      (h : ExposedIn d ctx kinds k s) : Ahead d ctx k ⟨kinds :: rest, s⟩
  | waiting {s : Text} (hd : d = .webComponent) (hk : k = .content)
      (h : ExposedIn d ctx Kind.all k s) : Ahead d ctx k ⟨[primary, [.content]], s⟩

theorem ahead_start (h : ExposedIn d ctx (d.soughtWith k) k s) : Ahead d ctx k ⟨d.passes, s⟩ := by
  cases d with
  | flat => exact .running h
  | webComponent =>
    cases k with
    | content => exact .waiting rfl rfl h
    | component | attr | variant | state => exact .running h

theorem ahead_step (hn : ∀ c ∈ ctx.component, isNameChar c) (h : Ahead d ctx k a)
    (hs : Step d ctx a σ b) (hx : ∀ x ∈ σ, x.Sits d) : Ahead d ctx k b := by
  cases h with
  | running h =>
    cases hs with
    | substitute hf hr => exact .running (h.substitute hn hf hr (hx _ (List.mem_singleton_self _)))
    | advance hf => exact absurd hf h.findCall_ne
  | waiting hd hk h =>
    subst hd hk
    cases hs with
    | @substitute _ _ s c r hf hr =>
      have hsits := hx ⟨c, r⟩ (List.mem_singleton_self _)
      have hlast (he : Exposed .webComponent ctx Kind.all .content (c.kind, some c.params)) :
          ExposedIn .webComponent ctx Kind.all .content r :=
        he.of_resolve hn (trim_ne_nil_of_findCall hf) hr hsits.slot
      exact .waiting rfl rfl
        (((splice_of_findCall hf hsits.fits).exposed hsits.fits.sameLevels hlast).1 h)
    | advance hf =>
      have hfree := callFree_iff.2 hf
      obtain ⟨c, hc, he⟩ := h
      exact .running ⟨c, (calls_content hfree).symm ▸ hc, he.content hfree hc⟩

/-- An exposed call makes the expansion fail, whatever is replaced before. -/
theorem expand_error_of_exposed (hn : ∀ c ∈ ctx.component, isNameChar c)
    (hf : ExposedIn d ctx (d.soughtWith k) k s) (hx : Along d ctx (·.Sits d) ⟨d.passes, s⟩) :
    ∃ j, expand d ctx s = .error (.missingParameter j) := by
  obtain ⟨σ, b, hr, he⟩ := exists_run_expand (d := d) (notMem_of_isNameChar hn) s
  have hb : Ahead d ctx k b := hr.keeps hx (ahead_start hf) fun hs hx h => ahead_step hn h hs hx
  cases hres : expand d ctx s with
  | ok t =>
    rw [hres] at he
    cases he
    cases hb
  | error e =>
    rw [hres] at he
    obtain ⟨j, rfl⟩ := missingParameter_of_ends he
    exact ⟨j, rfl⟩

/-- Replacements that can be made separately sit in their places, if the names of slots have neither
quotes nor backslashes and what is put into slots is closed. -/
theorem along_sits_of_separable (hq : ∀ q ∈ parts Kind.all s, q.Shallow)
    (hs : Separable d ctx (parts Kind.all s))
    (hslot : d = .webComponent → ∀ p, .call .content p ∈ parts Kind.all s →
      '"' ∉ (slotAndContent p.trim).1 ∧ '\\' ∉ (slotAndContent p.trim).1 ∧
        Closed ((slotAndContent p.trim).2.getD ['*'])) :
    Along d ctx (·.Sits d) ⟨d.passes, s⟩ := by
  refine (along_of_separable hq hs).mono fun x hx => ⟨hx.fits, ?_⟩
  rintro rfl hk
  have hmem := hx.mem
  have hresolve := hx.resolve
  rw [hk] at hmem hresolve
  obtain ⟨hquote, hbackslash, hclosed⟩ := hslot rfl _ hmem
  obtain ⟨-, ⟨-, -, hr⟩ | ⟨⟨⟩, -⟩ | ⟨⟨⟩, -⟩ | ⟨⟨⟩, -⟩ | ⟨⟨⟩, -⟩⟩ := Dialect.resolve_cases hresolve
  rw [ReadsAsSlot, hr]
  exact segments_slot hquote hbackslash hclosed

/-- In both passes calls can be replaced around a faulty one, and the use of a parameter can hide
another faulty one. -/
theorem expand_error_of_exposed_nested :
    let ctx : Context := ⟨"Button".toList, none⟩
    let s := "content(a, content()) state(:is(variant(b content())))".toList
    let t := "content(a, :not(attribute(b content())))".toList
    ((∀ c ∈ ctx.component, isNameChar c) ∧
      ExposedIn .flat ctx (Dialect.flat.soughtWith .content) .content s ∧
      Along .flat ctx (·.Sits .flat) ⟨Dialect.flat.passes, s⟩ ∧
      ExposedIn .webComponent ctx (Dialect.webComponent.soughtWith .content) .content t ∧
      Along .webComponent ctx (·.Sits .webComponent) ⟨Dialect.webComponent.passes, t⟩) ∧
    (∃ j, expand .flat ctx s = .error (.missingParameter j)) ∧
      ∃ j, expand .webComponent ctx t = .error (.missingParameter j) := by
  intro ctx s t
  have hn : ∀ c ∈ ctx.component, isNameChar c := List.all_eq_true.1 (by decide)
  have hs : ExposedIn .flat ctx (Dialect.flat.soughtWith .content) .content s := by
    refine ⟨(.state, some ":is(variant(b content()))".toList), by decide +kernel, ?_⟩
    refine .kept (c := (.variant, some "b content()".toList)) rfl (by decide +kernel) ?_
    exact .kept (c := (.content, some [])) rfl (by decide +kernel) (.blank rfl)
  have ht : ExposedIn .webComponent ctx (Dialect.webComponent.soughtWith .content) .content t := by
    refine ⟨(.content, some "a, :not(attribute(b content()))".toList), by decide +kernel, ?_⟩
    refine .kept (w := ":not(attribute(b content()))".toList)
      (c := (.attr, some "b content()".toList)) (by decide +kernel) (by decide +kernel) ?_
    exact .kept (c := (.content, some [])) rfl (by decide +kernel) (.blank rfl)
  have hxs : Along .flat ctx (·.Sits .flat) ⟨Dialect.flat.passes, s⟩ :=
    along_of_checked (n := 4) (by decide +kernel)
  have hxt : Along .webComponent ctx (·.Sits .webComponent) ⟨Dialect.webComponent.passes, t⟩ :=
    along_of_checked (n := 4) (by decide +kernel)
  exact ⟨⟨hn, hs, hxs, ht, hxt⟩, expand_error_of_exposed hn hs hxs,
    expand_error_of_exposed hn ht hxt⟩

/-- A faulty call is lost where a name in front takes its name in, be it that of the replacement
before it or the one that its parameters are written behind, and in brackets, and with a parameter
that there is no use for. -/
theorem expand_ok_of_faulty :
    let ctx : Context := ⟨"Button".toList, none⟩
    (Faulty .content "content(a)content()".toList ∧
      expand .flat ctx "content(a)content()".toList =
        .ok ".spectrum-Button-acontent()".toList) ∧
    (Faulty .content "content(content())".toList ∧
      expand .flat ctx "content(content())".toList = .ok ".spectrum-Button-content()".toList) ∧
    (Faulty .content "variant(content())".toList ∧
      expand .webComponent ctx "variant(content())".toList = .ok ":host([content()])".toList) ∧
    (Faulty .content "content(a, content())".toList ∧
      expand .flat ctx "content(a, content())".toList = .ok ".spectrum-Button-a".toList) := by
  have hblank : (Part.call .content []).Faulty .content := .blank rfl
  refine ⟨⟨⟨_, ?_, hblank⟩, by decide +kernel⟩,
    ⟨⟨.call .content "content()".toList, by decide +kernel, .within ?_ hblank⟩, by decide +kernel⟩,
    ⟨⟨.call .variant "content()".toList, by decide +kernel, .within ?_ hblank⟩, by decide +kernel⟩,
    ⟨.call .content "a, content()".toList, by decide +kernel, .within ?_ hblank⟩, by decide +kernel⟩
  all_goals decide +kernel

end ComponentSheet.Macro
