import ComponentSheet.Proofs.Component.Partition
import ComponentSheet.Proofs.Component.Removed
import ComponentSheet.Proofs.Sheet.Nodes

/-! An expanded sheet has no component at-rules, and to expand a sheet without them does nothing. -/
namespace ComponentSheet.Component

open Macro

variable {o : Options} {d : Dialect} {scope : Scope} {n : Node} {l m : List Node} {h : Hoisted}
  {log : List Diagnostic}

/-- No node is a component at-rule, at any depth. -/
def ComponentFree (l : List Node) : Prop :=
  ∀ n ∈ nodesWithin l, opensComponent n = false

theorem componentFree_nil : ComponentFree [] := by
  simp [ComponentFree, nodesWithin]

theorem componentFree_cons :
    ComponentFree (n :: l) ↔
      opensComponent n = false ∧ ComponentFree n.children ∧ ComponentFree l := by
  cases n <;> simp [ComponentFree, nodesWithin, Node.children, or_imp, forall_and]

theorem componentFree_append : ComponentFree (l ++ m) ↔ ComponentFree l ∧ ComponentFree m := by
  induction l with
  | nil => simp [componentFree_nil]
  | cons n l ih => simp only [List.cons_append, componentFree_cons, ih, and_assoc]

theorem opensComponent_withChildren (n : Node) (l : List Node) :
    opensComponent (n.withChildren l) = opensComponent n := by
  cases n <;> rfl

theorem opensComponent_rewritten (d : Dialect) (scope : Scope) (n : Node) :
    opensComponent (scope.rewritten d n) = opensComponent n := by
  fun_cases Scope.rewritten d scope n <;> rfl

theorem componentFree_withChildren (hn : opensComponent n = false) (hl : ComponentFree l) :
    ComponentFree [n.withChildren l] := by
  rw [componentFree_cons, opensComponent_withChildren]
  refine ⟨hn, ?_, componentFree_nil⟩
  cases n with
  | rule | block => exact hl
  | statement | declaration | comment => exact componentFree_nil

/-- Of the component at-rules only blocks with a name are not left out. -/
theorem opensComponent_eq_false (hp : scope.problem? d n = none) (hn : opensNamed n = false) :
    opensComponent n = false := by
  cases scope <;> cases n <;> simp_all [Scope.problem?, opensNamed, opensComponent]

theorem componentFree_placed (hp : scope.problem? d n = none) (hh : ComponentFree h.nodes) :
    ComponentFree (scope.placed d n h).nodes := by
  rw [Scope.placed]
  split
  · exact hh
  · rename_i hn
    have hc := opensComponent_eq_false hp (by simpa using hn)
    simp only [Hoisted.nodes, List.append_nil]
    exact componentFree_withChildren ((opensComponent_rewritten d scope n).trans hc) hh

theorem componentFree_of_walk (hw : walk o scope l = .done h log) : ComponentFree h.nodes := by
  fun_induction walk o scope l generalizing h log with
  | case1 scope =>
    obtain ⟨rfl, -⟩ := Outcome.pure_eq_done.1 hw
    exact componentFree_nil
  | case2 scope n l ihChildren ih =>
    rw [← walk, walk_cons_eq_done] at hw
    obtain ⟨first, rest, l₁, l₂, hf, hr, rfl, -⟩ := hw
    have hfirst : ComponentFree first.nodes := by
      rcases step_eq_done hf with ⟨problem, -, rfl, -⟩ | ⟨hp, inner, hi, rfl⟩
      · exact componentFree_nil
      · exact componentFree_placed hp (ihChildren hi)
    have hrest := ih hr
    simp only [Hoisted.nodes, Hoisted.append, componentFree_append] at hfirst hrest ⊢
    exact ⟨⟨hfirst.1, hrest.1⟩, hfirst.2, hrest.2⟩

theorem problem?_outside (hn : opensComponent n = false) : Scope.outside.problem? d n = none := by
  cases n <;> simp_all [Scope.problem?, opensComponent]

theorem opensNamed_eq_false (hn : opensComponent n = false) : opensNamed n = false := by
  cases n <;> simp_all [opensNamed, opensComponent]

theorem walk_componentFree (o : Options) (hl : ComponentFree l) :
    walk o .outside l = pure (.inPlace l) := by
  generalize hs : Scope.outside = scope
  fun_induction walk o scope l with
  | case1 scope => rfl
  | case2 scope n l ihChildren ih =>
    subst hs
    obtain ⟨hn, hc, hr⟩ := componentFree_cons.1 hl
    have hb : opensNamed n = false := opensNamed_eq_false hn
    rw [ihChildren hc (below_outside hb).symm, ih hr rfl, step_inPlace (problem?_outside hn) hb]
    simp only [pure_bind, Hoisted.nodes_inPlace, Scope.rewritten, n.withChildren_children]
    rfl

/-- What an expansion gives has no component at-rules, and any other expansion leaves it as it is
and has nothing to report. -/
theorem expandSheet_expandSheet {o : Options} {sheet result : List Node} {log : List Diagnostic}
    (hx : expandSheet o sheet = .done result log) :
    (∀ n ∈ nodesWithin result, opensComponent n = false) ∧
      ∀ again : Options, expandSheet again result = .done result [] := by
  obtain ⟨h, hw, rfl⟩ := expandSheet_eq_done.1 hx
  rw [← walk_outside] at hw
  have hf : ComponentFree h.nodes := componentFree_of_walk hw
  refine ⟨hf, fun again => ?_⟩
  rw [expandSheet_eq_walk, walk_componentFree again hf, map_pure, Hoisted.nodes_inPlace]
  rfl

theorem expandSheet_expandSheet_hoisted :
    let o : Options := ⟨.flat, .leaveOut⟩
    let top := Declaration.mk "top".toList "0".toList false
    let component : Node := .block "component".toList "Button".toList
      [.rule ".b".toList [.declaration top ⟨3, 9⟩] ⟨3, 5⟩,
        .block "media".toList "print".toList
          [.statement "component".toList "X".toList ⟨5, 9⟩,
            .rule "primary".toList [] ⟨6, 9⟩] ⟨4, 5⟩]
      ⟨2, 3⟩
    let sheet : List Node := [.block "media".toList "print".toList
      [component, .rule ".c".toList [] ⟨9, 3⟩] ⟨1, 1⟩]
    let result : List Node := [.block "media".toList "print".toList
      [.rule ".c".toList [] ⟨9, 3⟩,
        .rule ".spectrum-Button-b".toList [.declaration top ⟨3, 9⟩] ⟨3, 5⟩,
        .block "media".toList "print".toList [.rule "primary".toList [] ⟨6, 9⟩] ⟨4, 5⟩] ⟨1, 1⟩]
    expandSheet o sheet = .done result
        [⟨.nestedComponent "X".toList "Button".toList, ⟨5, 9⟩⟩] ∧
      (∀ n ∈ nodesWithin result, opensComponent n = false) ∧
        ∀ again : Options, expandSheet again result = .done result [] := by
  intro o top component sheet result
  have hx : expandSheet o sheet =
      .done result [⟨.nestedComponent "X".toList "Button".toList, ⟨5, 9⟩⟩] := by decide +kernel
  exact ⟨hx, expandSheet_expandSheet hx⟩

end ComponentSheet.Component
