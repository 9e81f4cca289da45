import ComponentSheet.Proofs.Component.Walk

/-! What an expansion removes from a sheet. All else stays as it is, but for the selectors of rules
and for the contents of component blocks, which move behind the nodes around the block. -/
namespace ComponentSheet

/-- The nodes without some of their subtrees. These are listed in the order of the sheet; none is
part of another one. -/
inductive Pruned : List Node → List Node → List Node → Prop
  | nil : Pruned [] [] []
  | remove {n : Node} {l kept removed : List Node} (h : Pruned l kept removed) :
      Pruned (n :: l) kept (n :: removed)
  | keep {n : Node} {l inner within kept removed : List Node}
      (hi : Pruned n.children inner within) (h : Pruned l kept removed) :
      Pruned (n :: l) (n.withChildren inner :: kept) (within ++ removed)

namespace Node

def unselected : Node → Node
  | rule _ l pos => rule [] l pos
  | n => n

theorem withChildren_children (n : Node) : n.withChildren n.children = n := by
  cases n <;> rfl

end Node

/-- The nodes without the selectors of their rules. -/
def erased : List Node → List Node
  | [] => []
  | n :: l => n.unselected.withChildren (erased n.children) :: erased l
termination_by l => sizeOf l
decreasing_by
  · exact n.sizeOf_children_lt l
  · exact n.sizeOf_tail_lt l

theorem pruned_self (l : List Node) : Pruned l l [] := by
  fun_induction erased l with
  | case1 => exact .nil
  | case2 n l ihChildren ih =>
    have h : Pruned (n :: l) (n.withChildren n.children :: l) ([] ++ []) := .keep ihChildren ih
    rwa [n.withChildren_children] at h

theorem erased_nil : erased [] = [] := by
  rw [erased]

theorem erased_append (l m : List Node) : erased (l ++ m) = erased l ++ erased m := by
  induction l with
  | nil => rw [erased_nil, List.nil_append, List.nil_append]
  | cons n l ih => rw [List.cons_append, erased, erased, ih, List.cons_append]

theorem erased_cons (n : Node) (inner l : List Node) :
    erased (n.withChildren inner :: l) = n.unselected.withChildren (erased inner) :: erased l := by
  rw [erased]
  cases n <;> rfl

namespace Component

open Macro

variable {o : Options} {d : Dialect} {scope : Scope} {component : Text} {parent : Option Text}
  {n : Node} {l : List Node} {h : Hoisted} {log : List Diagnostic}

/-- A node that is left out, and why. -/
structure Finding where
  node : Node
  problem : Problem

def Finding.diagnostic (f : Finding) : Diagnostic :=
  ⟨f.problem, f.node.pos⟩

/-- The nodes that are left out. What is in them is not looked at. -/
def findings (d : Dialect) (scope : Scope) : List Node → List Finding
  | [] => []
  | n :: l =>
    match scope.problem? d n with
    | some problem => ⟨n, problem⟩ :: findings d scope l
    | none => findings d (scope.below d n) n.children ++ findings d scope l
termination_by l => sizeOf l
decreasing_by
  · exact n.sizeOf_tail_lt l
  · exact n.sizeOf_children_lt l
  · exact n.sizeOf_tail_lt l

/-- The nodes without those that are left out for one of the problems in `p`. -/
def without (d : Dialect) (p : Problem → Bool) (scope : Scope) : List Node → List Node
  | [] => []
  | n :: l =>
    match scope.problem? d n with
    | some problem => if p problem then without d p scope l else n :: without d p scope l
    | none => n.withChildren (without d p (scope.below d n) n.children) :: without d p scope l
termination_by l => sizeOf l
decreasing_by
  · exact n.sizeOf_tail_lt l
  · exact n.sizeOf_tail_lt l
  · exact n.sizeOf_children_lt l
  · exact n.sizeOf_tail_lt l

theorem pruned_without (d : Dialect) (p : Problem → Bool) (scope : Scope) (l : List Node) :
    Pruned l (without d p scope l)
      (((findings d scope l).filter (p ·.problem)).map Finding.node) := by
  fun_induction without d p scope l with
  | case1 =>
    rw [findings]
    exact .nil
  | case2 scope n l problem hn hp ih =>
    simp only [findings, hn, List.filter_cons, hp, if_true, List.map_cons]
    exact .remove ih
  | case3 scope n l problem hn hp ih =>
    simp only [findings, hn, List.filter_cons, hp]
    have h := Pruned.keep (pruned_self n.children) ih
    rwa [n.withChildren_children] at h
  | case4 scope n l hn ihChildren ih =>
    simp only [findings, hn, List.filter_append, List.map_append]
    exact .keep ihChildren ih

theorem log_of_walk (hw : walk o scope l = .done h log) :
    log = (findings o.dialect scope l).map Finding.diagnostic := by
  fun_induction walk o scope l generalizing h log with
  | case1 scope =>
    rw [findings]
    exact (Outcome.pure_eq_done.1 hw).2
  | case2 scope n l ihChildren ih =>
    rw [← walk, walk_cons_eq_done] at hw
    obtain ⟨first, rest, l₁, l₂, hf, hr, -, rfl⟩ := hw
    rw [findings, ih hr]
    rcases step_eq_done hf with ⟨problem, hp, -, rfl⟩ | ⟨hp, inner, hi, -⟩
    · simp only [hp]
      rfl
    · simp only [hp]
      rw [ihChildren hi, List.map_append]

/-- The children of the named component blocks among the nodes. -/
def released (l : List Node) : List Node :=
  (l.filter opensNamed).flatMap Node.children

/-- The nodes that are no named component blocks, with the children of such blocks behind all other
nodes around them. -/
def remaining : List Node → List Node
  | [] => []
  | n :: l =>
    if opensNamed n then remaining l
    else n.withChildren (remaining n.children ++ released n.children) :: remaining l
termination_by l => sizeOf l
decreasing_by
  · exact n.sizeOf_tail_lt l
  · exact n.sizeOf_children_lt l
  · exact n.sizeOf_tail_lt l

/-- The nodes with the children of each named component block in its stead, behind the nodes around
it. -/
def unwrapped (l : List Node) : List Node :=
  remaining l ++ released l

theorem opensNamed_withChildren (n : Node) (l : List Node) :
    opensNamed (n.withChildren l) = opensNamed n := by
  cases n <;> rfl

theorem opensNamed_unselected (n : Node) : opensNamed n.unselected = opensNamed n := by
  cases n <;> rfl

theorem unselected_rewritten (d : Dialect) (scope : Scope) (n : Node) :
    (scope.rewritten d n).unselected = n.unselected := by
  fun_cases Scope.rewritten d scope n <;> rfl

theorem opensNamed_eq_false_of_inside
    (h : (Scope.inside component parent).problem? d n = none) : opensNamed n = false := by
  cases n with
  | block name params children pos =>
    have hc : ¬ isComponent name := by simpa [Scope.problem?] using h
    simp [opensNamed, hc]
  | rule | statement | declaration | comment => rfl

theorem remaining_nil : remaining [] = [] := by
  rw [remaining]

theorem remaining_cons (hn : opensNamed n = false) (inner l : List Node) :
    remaining (n.withChildren inner :: l) = n.withChildren (unwrapped inner) :: remaining l := by
  rw [remaining, opensNamed_withChildren, hn]
  cases n <;> rfl

theorem remaining_named (hn : opensNamed n) (l : List Node) :
    remaining (n :: l) = remaining l := by
  rw [remaining, if_pos hn]

theorem released_cons (hn : opensNamed n = false) (l : List Node) :
    released (n :: l) = released l := by
  simp [released, hn]

theorem released_named (hn : opensNamed n) (inner l : List Node) :
    released (n.withChildren inner :: l) = inner ++ released l := by
  have hw : opensNamed (n.withChildren inner) := by rwa [opensNamed_withChildren]
  have hc : (n.withChildren inner).children = inner := by
    cases n with
    | block => rfl
    | rule | statement | declaration | comment => cases hn
  rw [released, List.filter_cons_of_pos hw, List.flatMap_cons, hc, released]

/-- All nodes that an expansion may leave out are. -/
def cleared (d : Dialect) (scope : Scope) (l : List Node) : List Node :=
  without d (fun _ => true) scope l

theorem cleared_removed {problem : Problem} (h : scope.problem? d n = some problem) :
    cleared d scope (n :: l) = cleared d scope l := by
  simp [cleared, without, h]

theorem cleared_kept (h : scope.problem? d n = none) :
    cleared d scope (n :: l) =
      n.withChildren (cleared d (scope.below d n) n.children) :: cleared d scope l := by
  simp [cleared, without, h]

theorem erased_inside (hw : walk o (.inside component parent) l = .done h log) :
    h.moved = [] ∧ erased h.staying = erased (cleared o.dialect (.inside component parent) l) := by
  generalize hs : Scope.inside component parent = scope at hw
  fun_induction walk o scope l generalizing parent h log with
  | case1 scope =>
    obtain ⟨rfl, -⟩ := Outcome.pure_eq_done.1 hw
    simp [cleared, without]
  | case2 scope n l ihChildren ih =>
    subst hs
    rw [← walk, walk_cons_eq_done] at hw
    obtain ⟨first, rest, l₁, l₂, hf, hr, rfl, -⟩ := hw
    obtain ⟨hm, he⟩ := ih rfl hr
    rcases step_eq_done hf with ⟨problem, hp, rfl, -⟩ | ⟨hp, inner, hi, rfl⟩
    · rw [cleared_removed hp]
      exact ⟨hm, he⟩
    · obtain ⟨hmi, hei⟩ := ihChildren rfl hi
      rw [placed_eq _ (opensNamed_eq_false_of_inside hp), cleared_kept hp]
      refine ⟨hm, ?_⟩
      have hn : inner.nodes = inner.staying := by rw [Hoisted.nodes, hmi, List.append_nil]
      change erased (_ :: rest.staying) = _
      rw [erased_cons, erased_cons, unselected_rewritten, hn, hei, he]

theorem below_named (hn : opensNamed n) :
    ∃ component, Scope.outside.below d n = .inside component none := by
  cases n with
  | block name params children pos =>
    obtain ⟨hc, hw⟩ := (Bool.and_eq_true _ _).mp hn
    obtain ⟨component, hw⟩ := Option.isSome_iff_exists.1 hw
    exact ⟨component, by simp [Scope.below, hc, hw]⟩
  | rule | statement | declaration | comment => cases hn

theorem below_outside (hn : opensNamed n = false) : Scope.outside.below d n = .outside := by
  cases n with
  | block name params children pos =>
    by_cases hc : isComponent name
    · have hw : params.firstWord? = none := by simpa [opensNamed, hc] using hn
      simp [Scope.below, hw]
    · exact if_neg hc
  | rule | statement | declaration | comment => rfl

theorem erased_outside (hw : walk o .outside l = .done h log) :
    erased h.staying = remaining (erased (cleared o.dialect .outside l)) ∧
      erased h.moved = released (erased (cleared o.dialect .outside l)) := by
  generalize hs : Scope.outside = scope at hw
  fun_induction walk o scope l generalizing h log with
  | case1 scope =>
    obtain ⟨rfl, -⟩ := Outcome.pure_eq_done.1 hw
    simp [cleared, without, erased_nil, remaining_nil, released]
  | case2 scope n l ihChildren ih =>
    subst hs
    rw [← walk, walk_cons_eq_done] at hw
    obtain ⟨first, rest, l₁, l₂, hf, hr, rfl, -⟩ := hw
    obtain ⟨hs, hm⟩ := ih rfl hr
    rcases step_eq_done hf with ⟨problem, hp, rfl, -⟩ | ⟨hp, inner, hi, rfl⟩
    · rw [cleared_removed hp]
      exact ⟨hs, hm⟩
    · rw [cleared_kept hp, erased_cons]
      have hu : opensNamed (n.unselected.withChildren
          (erased (cleared o.dialect (Scope.outside.below o.dialect n) n.children))) =
            opensNamed n := by
        rw [opensNamed_withChildren, opensNamed_unselected]
      cases hn : opensNamed n with
      | true =>
        -- Nothing moves out of the block a second time: all of its contents move with it.
        obtain ⟨component, hb⟩ := below_named (d := o.dialect) hn
        rw [hb] at hi
        obtain ⟨hmi, hei⟩ := erased_inside hi
        rw [Scope.placed, if_pos hn, remaining_named (hu.trans hn), hb]
        refine ⟨hs, ?_⟩
        rw [released_named (by rwa [opensNamed_unselected]), ← hei, ← hm, Hoisted.append,
          erased_append, Hoisted.nodes, hmi, List.append_nil]
      | false =>
        have hb : Scope.outside.below o.dialect n = .outside := below_outside hn
        obtain ⟨hsi, hmi⟩ := ihChildren hb.symm hi
        rw [placed_eq _ hn, remaining_cons (by rwa [opensNamed_unselected]),
          released_cons (hu.trans hn), unwrapped, ← hsi, ← hmi, ← erased_append]
        refine ⟨?_, hm⟩
        change erased (_ :: rest.staying) = _
        rw [erased_cons, hs]
        rfl

/-- An expansion that succeeds leaves out the nodes that it has diagnostics for, one for each in the
order of the sheet, and none of them is part of another one. But for the selectors of rules and the
contents of component blocks, which move, all else stays as it is. -/
theorem erased_expandSheet {sheet result : List Node}
    (hx : expandSheet o sheet = .done result log) :
    Pruned sheet (cleared o.dialect .outside sheet)
        ((findings o.dialect .outside sheet).map Finding.node) ∧
      erased result = unwrapped (erased (cleared o.dialect .outside sheet)) ∧
      log = (findings o.dialect .outside sheet).map Finding.diagnostic := by
  obtain ⟨h, hw, rfl⟩ := expandSheet_eq_done.1 hx
  rw [← walk_outside] at hw
  obtain ⟨hs, hm⟩ := erased_outside hw
  refine ⟨?_, ?_, log_of_walk hw⟩
  · have hp := pruned_without o.dialect (fun _ => true) .outside sheet
    rwa [List.filter_eq_self.2 (fun _ _ => rfl)] at hp
  · rw [Hoisted.nodes, erased_append, hs, hm, unwrapped]

theorem erased_expandSheet_mixed :
    let o : Options := ⟨.flat, .leaveOut⟩
    let missing := Node.statement "component".toList "X".toList ⟨3, 5⟩
    let failing := Node.rule "content()".toList [] ⟨6, 5⟩
    let nested := Node.block "component".toList "Y".toList [] ⟨7, 5⟩
    let plain := Node.rule ".b".toList [] ⟨5, 5⟩
    let sheet : List Node := [.block "component".toList [] [plain] ⟨1, 1⟩,
      .rule ".a".toList [missing] ⟨2, 1⟩,
      .block "component".toList "B".toList [plain, failing, nested] ⟨4, 1⟩,
      .rule ".c".toList [] ⟨9, 1⟩]
    let result : List Node := [.rule ".a".toList [] ⟨2, 1⟩, .rule ".c".toList [] ⟨9, 1⟩,
      .rule ".spectrum-B-b".toList [] ⟨5, 5⟩]
    let log : List Diagnostic := [⟨.missingName, ⟨1, 1⟩⟩, ⟨.missingBlock "X".toList, ⟨3, 5⟩⟩,
      ⟨.failedMacro (.missingParameter .content) "content()".toList, ⟨6, 5⟩⟩,
      ⟨.nestedComponent "Y".toList "B".toList, ⟨7, 5⟩⟩]
    expandSheet o sheet = .done result log ∧
      Pruned sheet (cleared o.dialect .outside sheet)
          ((findings o.dialect .outside sheet).map Finding.node) ∧
        erased result = unwrapped (erased (cleared o.dialect .outside sheet)) ∧
        log = (findings o.dialect .outside sheet).map Finding.diagnostic := by
  intro o missing failing nested plain sheet result log
  have hx : expandSheet o sheet = .done result log := by decide +kernel
  exact ⟨hx, erased_expandSheet hx⟩

end Component

end ComponentSheet
