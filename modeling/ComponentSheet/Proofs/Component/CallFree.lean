import ComponentSheet.Proofs.Component.Hoisting
import ComponentSheet.Proofs.Macro.CallFree

/-! The rules that come out of component blocks have no calls in their selectors. -/
namespace ComponentSheet.Component

open Macro Selector

variable {o : Options} {d : Dialect} {ctx : Context} {component own s : Text}
  {parent : Option Text} {params : Text} {pos : Position}
  {children l nodes result sheet : List Node} {h : Hoisted}
  {log : List Diagnostic} {P Q : Text → Prop} {kept kept' all all' : List (Text × Position)}

/-- The replacements in the entries of a selector uncover no call, and the expanded entries stay
apart in their list. -/
structure Tidy (d : Dialect) (ctx : Context) (own : Text) : Prop where
  quiet : ∀ e ∈ entries own, Along d ctx (·.Quiet d) ⟨d.passes, e⟩
  apart : ∀ l, (entries own).mapM (expand d ctx) = .ok l → ∀ e ∈ l.dropLast, EndsBefore e [',']

theorem exists_of_mapM {ε α β : Type} {f : α → Except ε β} {l : List α} {m : List β}
    (h : l.mapM f = .ok m) : ∀ b ∈ m, ∃ a ∈ l, f a = .ok b := by
  induction l generalizing m with
  | nil =>
    cases h
    simp
  | cons a l ih =>
    rw [List.mapM_cons] at h
    cases ha : f a with
    | error e => simp [ha, bind, Except.bind] at h
    | ok b =>
      cases hl : l.mapM f with
      | error e => simp [ha, hl, bind, Except.bind] at h
      | ok m' =>
        simp only [ha, hl, bind, Except.bind, pure, Except.pure, Except.ok.injEq] at h
        subst h
        rw [List.forall_mem_cons]
        refine ⟨⟨a, by simp, ha⟩, fun c hc => ?_⟩
        obtain ⟨a', ha', hf⟩ := ih hl c hc
        exact ⟨a', by simp [ha'], hf⟩

theorem mapM_eq_ok {ε α β : Type} {f : α → Except ε β} {g : α → β} {l : List α}
    (h : ∀ a ∈ l, f a = .ok (g a)) : l.mapM f = .ok (l.map g) := by
  induction l with
  | nil => rfl
  | cons a l ih =>
    rw [List.forall_mem_cons] at h
    rw [List.mapM_cons, h.1, ih h.2]
    rfl

/-- Entries whose calls can be replaced all at once are tidy, if what comes out ends before the
commas. -/
theorem tidy_of_separable (hn : ∀ c ∈ ctx.component, isNameChar c)
    (hc : ∀ e ∈ entries own, Complete (parts Kind.all e) ∧ Separable d ctx (parts Kind.all e))
    (ha : ∀ e ∈ ((entries own).map fun e => simultaneous d ctx (parts Kind.all e)).dropLast,
      EndsBefore e [',']) : Tidy d ctx own := by
  constructor
  · intro e he
    obtain ⟨hcomplete, hs⟩ := hc e he
    exact along_quiet_of_separable (fun q hq => (hcomplete q hq).shallow) hs
  · intro l hl
    have hmap := mapM_eq_ok fun e he => expand_eq_of_sound hn (sound_start (hc e he).1 (hc e he).2)
    obtain rfl := Except.ok.inj (hmap.symm.trans hl)
    exact ha

theorem containsCall_of_expandedSelector (hn : ∀ c ∈ ctx.component, isNameChar c)
    (ht : Tidy d ctx own) (h : expandedSelector d ctx own = .ok s) : containsCall s = false := by
  rw [expandedSelector] at h
  split at h
  · cases hl : (entries own).mapM (expand d ctx) with
    | error e => simp [hl, Except.map] at h
    | ok l =>
      rw [hl] at h
      cases h
      refine containsCall_ofEntries (fun e he => ?_) (ht.apart l hl)
      obtain ⟨e', he', hx⟩ := exists_of_mapM hl e he
      exact containsCall_of_expand hn (ht.quiet e' he') hx
  · rename_i hc
    cases h
    simpa using hc

/-- The rules among the nodes, at any depth. -/
def rules : List Node → List (Text × Position)
  | [] => []
  | .rule selector children pos :: l => (selector, pos) :: rules children ++ rules l
  | .block _ _ children _ :: l => rules children ++ rules l
  | _ :: l => rules l

/-- The selectors that are expanded in a block of a component, each with what its calls may depend
on. -/
def met (o : Options) (component : Text) (parent : Option Text) : List Node → List (Context × Text)
  | [] => []
  | .rule selector children _ :: l =>
    (⟨component, parent⟩, ownSelector o.dialect component selector) ::
      (match expandedSelector o.dialect ⟨component, parent⟩
          (ownSelector o.dialect component selector) with
        | .ok expanded => met o component (some expanded) children
        | .error _ => []) ++
      met o component parent l
  | .block name _ children _ :: l =>
    (if isComponent name then [] else met o component parent children) ++
      met o component parent l
  | _ :: l => met o component parent l

theorem rules_append : rules (l ++ nodes) = rules l ++ rules nodes := by
  fun_induction rules l with
  | case1 => rfl
  | case2 selector children pos l ih₁ ih₂ => simp [rules, ih₂]
  | case3 name params children pos l ih₁ ih₂ => simp [rules, ih₂]
  | case4 n l h₁ h₂ ih =>
    cases n with
    | rule s children pos => exact (h₁ s children pos rfl).elim
    | block name params children pos => exact (h₂ name params children pos rfl).elim
    | _ => simpa [rules] using ih

theorem rules_leaf {n : Node} (hn : n.hasBlock = false) : rules (n :: l) = rules l := by
  cases n <;> simp_all [rules, Node.hasBlock]

/-- The selector is what becomes of one of those that are met. -/
def Expanded (o : Options) (l : List (Context × Text)) (s : Text) : Prop :=
  ∃ x ∈ l, expandedSelector o.dialect x.1 x.2 = .ok s

theorem Expanded.mono {x y : List (Context × Text)} (h : Expanded o x s) (hxy : x ⊆ y) :
    Expanded o y s := by
  obtain ⟨c, hc, hs⟩ := h
  exact ⟨c, hxy hc, hs⟩

theorem expanded_of_insideAll (h : insideAll o component parent l = .done nodes log) :
    ∀ r ∈ rules nodes, Expanded o (met o component parent l) r.1 := by
  fun_induction met o component parent l generalizing nodes log with
  | case1 parent =>
    obtain ⟨rfl, -⟩ := Outcome.pure_eq_done.1 h
    simp [rules]
  | case2 parent selector children pos l ihChildren ih =>
    obtain ⟨first, rest, l₁, l₂, hf, hr, rfl⟩ := insideAll_cons h
    rw [rules_append, List.forall_mem_append]
    refine ⟨?_, fun r hr' => (ih hr r hr').mono (List.subset_append_right _ _)⟩
    rcases inside_rule hf with ⟨expanded, nodes, k, hx, hi, rfl⟩ | ⟨e, hx, rfl⟩
    · simp only [rules, List.append_nil, List.forall_mem_cons, hx]
      refine ⟨⟨_, List.mem_append_left _ List.mem_cons_self, hx⟩, fun r hr' => ?_⟩
      refine (ihChildren expanded hi r hr').mono ?_
      exact List.Subset.trans (List.subset_cons_self _ _) (List.subset_append_left _ _)
    · simp [rules]
  | case3 parent name params children pos l ihChildren ih =>
    obtain ⟨first, rest, l₁, l₂, hf, hr, rfl⟩ := insideAll_cons h
    rw [rules_append, List.forall_mem_append]
    refine ⟨?_, fun r hr' => (ih hr r hr').mono (List.subset_append_right _ _)⟩
    rcases inside_block hf with ⟨hc, rfl⟩ | ⟨hc, nodes, k, hi, rfl⟩
    · simp [rules]
    · simp only [rules, List.append_nil, hc]
      intro r hr'
      exact (ihChildren hi r hr').mono (List.subset_append_left _ _)
  | case4 parent n l h₁ h₂ ih =>
    obtain ⟨first, rest, l₁, l₂, hf, hr, rfl⟩ := insideAll_cons h
    have hn : n.hasBlock = false := by
      cases n with
      | rule s c p => exact (h₁ s c p rfl).elim
      | block m q c p => exact (h₂ m q c p rfl).elim
      | _ => rfl
    rcases inside_leaf hn hf with rfl | rfl
    · exact ih hr
    · simpa [rules_leaf hn] using ih hr

/-- The rules that are in no component block. -/
def standing : List Node → List (Text × Position)
  | [] => []
  | .rule selector children pos :: l => (selector, pos) :: standing children ++ standing l
  | .block name _ children _ :: l =>
    (if isComponent name then [] else standing children) ++ standing l
  | _ :: l => standing l

theorem standing_leaf {n : Node} (hn : n.hasBlock = false) : standing (n :: l) = standing l := by
  cases n <;> simp_all [standing, Node.hasBlock]

/-- The selectors that are expanded in the component blocks. -/
def metInBlocks (o : Options) : List Node → List (Context × Text)
  | [] => []
  | .rule _ children _ :: l => metInBlocks o children ++ metInBlocks o l
  | .block name params children _ :: l =>
    (if isComponent name then
      params.firstWord?.elim [] fun component => met o component none children
    else metInBlocks o children) ++ metInBlocks o l
  | _ :: l => metInBlocks o l

/-- The rules are those that are kept and others, all with selectors that satisfy `P`. -/
def Extends (P : Text → Prop) (kept all : List (Text × Position)) : Prop :=
  ∃ others, all.Perm (kept ++ others) ∧ ∀ r ∈ others, P r.1

theorem Extends.mono (h : Extends P kept all) (hpq : ∀ s, P s → Q s) : Extends Q kept all := by
  obtain ⟨others, hp, ho⟩ := h
  exact ⟨others, hp, fun r hr => hpq _ (ho r hr)⟩

theorem Extends.perm (h : Extends P kept all) (hp : all'.Perm all) : Extends P kept all' := by
  obtain ⟨others, hp', ho⟩ := h
  exact ⟨others, hp.trans hp', ho⟩

theorem Extends.append (h : Extends P kept all) (h' : Extends P kept' all') :
    Extends P (kept ++ kept') (all ++ all') := by
  obtain ⟨others, hp, ho⟩ := h
  obtain ⟨others', hp', ho'⟩ := h'
  refine ⟨others ++ others', ?_, List.forall_mem_append.2 ⟨ho, ho'⟩⟩
  calc (all ++ all').Perm ((kept ++ others) ++ (kept' ++ others')) := hp.append hp'
    _ = kept ++ (others ++ kept') ++ others' := by simp
    _ |>.Perm (kept ++ (kept' ++ others) ++ others') :=
      ((List.perm_append_comm).append_left kept).append_right others'
    _ = (kept ++ kept') ++ (others ++ others') := by simp

theorem Extends.cons (r : Text × Position) (h : Extends P kept all) :
    Extends P (r :: kept) (r :: all) := by
  obtain ⟨others, hp, ho⟩ := h
  exact ⟨others, hp.cons r, ho⟩

theorem Extends.of_forall (h : ∀ r ∈ all, P r.1) : Extends P [] all :=
  ⟨all, .refl _, h⟩

theorem Hoisted.rules_append (first rest : Hoisted) :
    (rules (Hoisted.nodes ⟨first.staying ++ rest.staying, first.moved ++ rest.moved⟩)).Perm
      (rules first.nodes ++ rules rest.nodes) := by
  simp only [Hoisted.nodes, Component.rules_append, List.append_assoc]
  refine List.Perm.append_left _ ?_
  rw [← List.append_assoc, ← List.append_assoc]
  exact List.perm_append_comm.append_right _

theorem expanded_append {x y : List (Context × Text)} (h : Extends (Expanded o x) kept all)
    (h' : Extends (Expanded o y) kept' all') :
    Extends (Expanded o (x ++ y)) (kept ++ kept') (all ++ all') := by
  refine (h.mono ?_).append (h'.mono ?_)
  · intro s hs
    exact hs.mono (List.subset_append_left x y)
  · intro s hs
    exact hs.mono (List.subset_append_right x y)

theorem contents_rules (h : contents o params (some children) pos = .done nodes log) :
    Extends (Expanded o (params.firstWord?.elim [] fun component => met o component none children))
      [] (rules nodes) := by
  apply Extends.of_forall
  rcases contents_some h with ⟨rfl, -⟩ | ⟨component, hw, hi⟩
  · simp [rules]
  · rw [hw]
    exact expanded_of_insideAll hi

theorem hoistAll_rules (hh : hoistAll o l = .done h log) :
    Extends (Expanded o (metInBlocks o l)) (standing l) (rules h.nodes) := by
  fun_induction metInBlocks o l generalizing h log with
  | case1 =>
    obtain ⟨rfl, -⟩ := Outcome.pure_eq_done.1 hh
    exact ⟨[], by simp [Hoisted.nodes, rules, standing], by simp⟩
  | case2 selector children pos l ihChildren ih =>
    obtain ⟨first, rest, l₁, l₂, hf, hr, rfl, -⟩ := hoistAll_cons_eq_done.1 hh
    obtain ⟨inner, k, hi, rfl⟩ := hoist_rule hf
    rw [standing]
    refine (expanded_append ?_ (ih hr)).perm (Hoisted.rules_append _ _)
    simpa [Hoisted.nodes, rules] using (ihChildren hi).cons (selector, pos)
  | case3 name params children pos l ihChildren ih =>
    obtain ⟨first, rest, l₁, l₂, hf, hr, rfl, -⟩ := hoistAll_cons_eq_done.1 hh
    rw [standing]
    refine (expanded_append ?_ (ih hr)).perm (Hoisted.rules_append _ _)
    rcases hoist_block hf with ⟨hc, moved, k, hm, rfl⟩ | ⟨hc, inner, k, hi, rfl⟩
    · simpa [Hoisted.nodes, hc] using contents_rules hm
    · simpa [Hoisted.nodes, rules, hc] using ihChildren hi
  | case4 n l h₁ h₂ ih =>
    obtain ⟨first, rest, l₁, l₂, hf, hr, rfl, -⟩ := hoistAll_cons_eq_done.1 hh
    have hn : n.hasBlock = false := by
      cases n with
      | rule s c p => exact (h₁ s c p rfl).elim
      | block m q c p => exact (h₂ m q c p rfl).elim
      | _ => rfl
    rw [standing_leaf hn]
    rcases hoist_leaf hn hf with rfl | rfl
    · exact ih hr
    · simpa [Hoisted.nodes, rules_leaf hn] using ih hr

/-- The rules of an expanded sheet are those outside its component blocks, and rules without calls
in their selectors. -/
theorem containsCall_of_expandSheet
    (hn : ∀ x ∈ metInBlocks o sheet, ∀ c ∈ x.1.component, isNameChar c)
    (ht : ∀ x ∈ metInBlocks o sheet, Tidy o.dialect x.1 x.2)
    (h : expandSheet o sheet = .done result log) :
    Extends (containsCall · = false) (standing sheet) (rules result) := by
  obtain ⟨h, hh, rfl⟩ := expandSheet_eq_done.1 h
  refine (hoistAll_rules hh).mono ?_
  rintro s ⟨x, hx, hs⟩
  exact containsCall_of_expandedSelector (hn x hx) (ht x hx) hs

theorem containsCall_of_expandSheet_slot :
    let o : Options := ⟨.webComponent, .abort⟩
    let ctx : Context := ⟨"Button".toList, none⟩
    let own := "content(label), a".toList
    let sheet : List Node := [.rule "b".toList [] ⟨1, 1⟩,
      .block "component".toList "Button".toList [.rule own [] ⟨3, 1⟩] ⟨2, 1⟩]
    let result : List Node := [.rule "b".toList [] ⟨1, 1⟩,
      .rule "slot[name=\"label\"]::slotted(*),\na".toList [] ⟨3, 1⟩]
    (metInBlocks o sheet = [(ctx, own)] ∧ (∀ c ∈ ctx.component, isNameChar c) ∧
      Tidy .webComponent ctx own ∧ expandSheet o sheet = .done result []) ∧
      Extends (containsCall · = false) (standing sheet) (rules result) := by
  intro o ctx own sheet result
  have hm : metInBlocks o sheet = [(ctx, own)] := by
    have hc : isComponent "component".toList := by decide
    have hw : Text.firstWord? "Button".toList = some "Button".toList := by decide +kernel
    have ho : ownSelector .webComponent "Button".toList own = own := by decide
    simp only [sheet, metInBlocks, met, hc, hw, if_true, Option.elim_some, o, ho]
    split <;> rfl
  have hn : ∀ c ∈ ctx.component, isNameChar c := List.all_eq_true.1 (by decide)
  have he : expandSheet o sheet = .done result [] := by decide +kernel
  have ht : Tidy .webComponent ctx own := by
    refine tidy_of_separable hn ?_ ?_
    · decide +kernel
    · decide +kernel
  exact ⟨⟨hm, hn, ht, he⟩,
    containsCall_of_expandSheet (by simpa [hm] using hn) (by simpa [hm] using ht) he⟩

/-- A slot can show a call that was in a string before, and two expanded entries can show one that
was in a string of their list. -/
theorem containsCall_expandSheet :
    let uncovered : List Node := [.block "component".toList "B".toList
      [.rule "content([u\"]component(x)[\"])".toList [] ⟨1, 16⟩] ⟨1, 1⟩]
    let joined : List Node := [.block "component".toList "B".toList
      [.rule ":not(content(a\",b\") content(c)), \")\"".toList [] ⟨1, 16⟩] ⟨1, 1⟩]
    (∃ s, expandSheet ⟨.webComponent, .abort⟩ uncovered = .done [.rule s [] ⟨1, 16⟩] [] ∧
      containsCall s) ∧
    ∃ s, expandSheet ⟨.flat, .abort⟩ joined = .done [.rule s [] ⟨1, 16⟩] [] ∧ containsCall s := by
  intro uncovered joined
  exact ⟨⟨"slot[name=\"[u\"]component(x)[\"]\"]::slotted(*)".toList, by decide +kernel,
    by decide +kernel⟩, ":not(.spectrum-B-a\" content(c)),\n\")\"".toList, by decide +kernel,
    by decide +kernel⟩

end ComponentSheet.Component
