import ComponentSheet.Proofs.Component.Hoisting

/-! One walk over a sheet for the nodes outside component blocks and for those in them. What comes
of a node depends on where it stands. -/
namespace ComponentSheet

namespace Node

def children : Node → List Node
  | rule _ l _ | block _ _ l _ => l
  | _ => []

/-- The node with other children, if it can have any. -/
def withChildren : Node → List Node → Node
  | rule selector _ pos, l => rule selector l pos
  | block name params _ pos, l => block name params l pos
  | n, _ => n

theorem children_leaf {n : Node} (h : n.hasBlock = false) : n.children = [] := by
  cases n <;> first | rfl | cases h

theorem withChildren_leaf {n : Node} (h : n.hasBlock = false) (l : List Node) :
    n.withChildren l = n := by
  cases n <;> first | rfl | cases h

theorem sizeOf_children_lt (n : Node) (l : List Node) : sizeOf n.children < sizeOf (n :: l) := by
  cases n <;> simp [children] <;> omega

theorem sizeOf_tail_lt (n : Node) (l : List Node) : sizeOf l < sizeOf (n :: l) := by
  simp only [List.cons.sizeOf_spec]
  omega

end Node

namespace Component

open Macro

variable {o : Options} {d : Dialect} {component : Text} {parent : Option Text} {n : Node}
  {l : List Node}

/-- Where a node stands: in no component block, or in the block of a component and there in a rule
with the selector `parent`. -/
inductive Scope where
  | outside
  | inside (component : Text) (parent : Option Text)

namespace Scope

/-- Why a node is left out where it stands. -/
def problem? (d : Dialect) : Scope → Node → Option Problem
  | outside, .block name params _ _ =>
    if isComponent name && params.firstWord?.isNone then some .missingName else none
  | outside, .statement name params _ =>
    if isComponent name then some (params.firstWord?.elim .missingName .missingBlock) else none
  | inside component parent, .rule selector _ _ =>
    match expandedSelector d ⟨component, parent⟩ (ownSelector d component selector) with
    | .ok _ => none
    | .error failure => some (.failedMacro failure (ownSelector d component selector))
  | inside component _, .block name params _ _ | inside component _, .statement name params _ =>
    if isComponent name then some (.nestedComponent params component) else none
  | _, _ => none

/-- The node with its selector as it is written in the end. -/
def rewritten (d : Dialect) : Scope → Node → Node
  | inside component parent, .rule selector children pos =>
    match expandedSelector d ⟨component, parent⟩ (ownSelector d component selector) with
    | .ok expanded => .rule expanded children pos
    | .error _ => .rule selector children pos
  | _, n => n

/-- The selector of the rule around the children of a node. -/
def parentBelow (parent : Option Text) : Node → Option Text
  | .rule selector _ _ => some selector
  | _ => parent

/-- Where the children of a node stand. -/
def below (d : Dialect) : Scope → Node → Scope
  | outside, .block name params _ _ =>
    if isComponent name then params.firstWord?.elim outside (inside · none) else outside
  | outside, _ => outside
  | inside component parent, n =>
    inside component (parentBelow parent ((inside component parent).rewritten d n))

end Scope

/-- A block for a component that has a name. -/
def opensNamed : Node → Bool
  | .block name params _ _ => isComponent name && params.firstWord?.isSome
  | _ => false

/-- What an expansion that meets the problem may be given up for. -/
def Problem.cause? : Problem → Option Cause
  | missingName | missingBlock _ => none
  | failedMacro .. => some .selector
  | nestedComponent .. => some .nesting

/-- What comes of a node that is left out. -/
def report (policy : Policy) (x : Diagnostic) : Outcome Hoisted :=
  match x.problem.cause? with
  | some cause => .fail policy cause x {}
  | none => .record x {}

namespace Scope

/-- A node with what has come of its children. -/
def placed (d : Dialect) (scope : Scope) (n : Node) (inner : Hoisted) : Hoisted :=
  if opensNamed n then { moved := inner.nodes }
  else { staying := [(scope.rewritten d n).withChildren inner.nodes] }

/-- What comes of a node, where `inner` is what comes of its children. -/
def step (o : Options) (scope : Scope) (n : Node) (inner : Outcome Hoisted) : Outcome Hoisted :=
  match scope.problem? o.dialect n with
  | some problem => report o.onError ⟨problem, n.pos⟩
  | none => scope.placed o.dialect n <$> inner

end Scope

def Hoisted.append (g h : Hoisted) : Hoisted :=
  ⟨g.staying ++ h.staying, g.moved ++ h.moved⟩

/-- What comes of the nodes of a sheet, or of the children of a node. -/
def walk (o : Options) (scope : Scope) : List Node → Outcome Hoisted
  | [] => return {}
  | n :: l => do
    let first ← scope.step o n (walk o (scope.below o.dialect n) n.children)
    let rest ← walk o scope l
    return first.append rest
termination_by l => sizeOf l
decreasing_by
  · exact n.sizeOf_children_lt l
  · exact n.sizeOf_tail_lt l

theorem walk_nil (o : Options) (scope : Scope) : walk o scope [] = pure {} := by
  rw [walk]

theorem walk_cons_eq_done {scope : Scope} {h : Hoisted} {log : List Diagnostic} :
    walk o scope (n :: l) = .done h log ↔
      ∃ first rest l₁ l₂,
        scope.step o n (walk o (scope.below o.dialect n) n.children) = .done first l₁ ∧
          walk o scope l = .done rest l₂ ∧ h = first.append rest ∧ log = l₁ ++ l₂ := by
  rw [walk]
  constructor
  · intro hw
    obtain ⟨first, l₁, k, hf, hk, rfl⟩ := Outcome.bind_eq_done.1 hw
    obtain ⟨rest, l₂, j, hr, hj, rfl⟩ := Outcome.bind_eq_done.1 hk
    obtain ⟨rfl, rfl⟩ := Outcome.pure_eq_done.1 hj
    exact ⟨first, rest, l₁, l₂, hf, hr, rfl, by rw [List.append_nil]⟩
  · rintro ⟨first, rest, l₁, l₂, hf, hr, rfl, rfl⟩
    simp only [hf, hr, Outcome.bind_eq_done, Outcome.pure_eq_done]
    exact ⟨first, l₁, l₂, rfl, ⟨rest, l₂, [], rfl, ⟨rfl, rfl⟩, by rw [List.append_nil]⟩, rfl⟩

theorem eq_of_report {policy : Policy} {x : Diagnostic} {h : Hoisted} {log : List Diagnostic}
    (hr : report policy x = .done h log) : h = {} ∧ log = [x] := by
  rw [report] at hr
  split at hr
  · cases policy with
    | abort => cases hr
    | leaveOut =>
      cases hr
      exact ⟨rfl, rfl⟩
  · cases hr
    exact ⟨rfl, rfl⟩

/-- A node is left out with a diagnostic, or all that is recorded comes from its children. -/
theorem step_eq_done {scope : Scope} {inner : Outcome Hoisted} {h : Hoisted}
    {log : List Diagnostic} (hs : scope.step o n inner = .done h log) :
    (∃ problem, scope.problem? o.dialect n = some problem ∧ h = {} ∧ log = [⟨problem, n.pos⟩]) ∨
      scope.problem? o.dialect n = none ∧
        ∃ g, inner = .done g log ∧ h = scope.placed o.dialect n g := by
  rw [Scope.step] at hs
  split at hs
  · rename_i problem hp
    exact Or.inl ⟨problem, hp, eq_of_report hs⟩
  · rename_i hp
    rw [map_eq_pure_bind] at hs
    obtain ⟨g, l₁, l₂, hi, hg, rfl⟩ := Outcome.bind_eq_done.1 hs
    obtain ⟨rfl, rfl⟩ := Outcome.pure_eq_done.1 hg
    exact Or.inr ⟨hp, g, by rw [List.append_nil, hi], rfl⟩

/-- Nodes of which none moves. -/
def Hoisted.inPlace (l : List Node) : Hoisted :=
  ⟨l, []⟩

@[simp] theorem Hoisted.nodes_inPlace (l : List Node) : (Hoisted.inPlace l).nodes = l :=
  List.append_nil l

theorem Hoisted.inPlace_append (l m : List Node) :
    Hoisted.inPlace (l ++ m) = (Hoisted.inPlace l).append (Hoisted.inPlace m) :=
  rfl

theorem Outcome.map_fail {α β : Type} (f : α → β) (policy : Policy) (cause : Cause)
    (x : Diagnostic) (a : α) : f <$> fail policy cause x a = fail policy cause x (f a) := by
  cases policy <;> rfl

theorem Outcome.map_done {α β : Type} (f : α → β) (a : α) (log : List Diagnostic) :
    f <$> done a log = done (f a) log := by
  rw [map_eq_pure_bind]
  exact bind_eq_done.2 ⟨a, log, [], rfl, rfl, (List.append_nil log).symm⟩

theorem report_of_cause {policy : Policy} {x : Diagnostic} {cause : Cause}
    (h : x.problem.cause? = some cause) :
    report policy x = Hoisted.inPlace <$> .fail policy cause x [] := by
  rw [report, h, Outcome.map_fail]
  rfl

theorem step_of_problem {scope : Scope} {problem : Problem}
    (h : scope.problem? o.dialect n = some problem) (inner : Outcome Hoisted) :
    scope.step o n inner = report o.onError ⟨problem, n.pos⟩ := by
  rw [Scope.step, h]

theorem step_of_none {scope : Scope} (h : scope.problem? o.dialect n = none)
    (inner : Outcome Hoisted) :
    scope.step o n inner = scope.placed o.dialect n <$> inner := by
  rw [Scope.step, h]

theorem placed_eq (scope : Scope) (h : opensNamed n = false) :
    scope.placed d n = fun inner => .inPlace [(scope.rewritten d n).withChildren inner.nodes] := by
  funext inner
  rw [Scope.placed, h]
  rfl

/-- A node that is kept in its place, with what has come of its children. -/
theorem step_inPlace {scope : Scope} (h : scope.problem? o.dialect n = none)
    (hn : opensNamed n = false) (inner : Outcome Hoisted) :
    scope.step o n inner =
      inner >>= fun inner =>
        pure (.inPlace [(scope.rewritten o.dialect n).withChildren inner.nodes]) := by
  rw [step_of_none h, placed_eq scope hn]
  simp

theorem rewritten_leaf (scope : Scope) (h : n.hasBlock = false) : scope.rewritten d n = n := by
  cases n with
  | rule | block => cases h
  | statement | declaration | comment => cases scope <;> rfl

theorem step_leaf {scope : Scope} (hn : n.hasBlock = false)
    (h : scope.problem? o.dialect n = none) (inner : Scope) :
    scope.step o n (walk o inner n.children) = pure (.inPlace [n]) := by
  have hb : opensNamed n = false := by cases n <;> first | rfl | cases hn
  rw [step_inPlace h hb, Node.children_leaf hn, walk_nil, rewritten_leaf scope hn]
  simp [Node.withChildren_leaf hn]

theorem step_inside (o : Options) (component : Text) (parent : Option Text) (n : Node) :
    (Scope.inside component parent).step o n
        (Hoisted.inPlace <$> insideAll o component
          (Scope.parentBelow parent ((Scope.inside component parent).rewritten o.dialect n))
          n.children) =
      Hoisted.inPlace <$> inside o component parent n := by
  cases n with
  | rule selector children pos =>
    cases hx : expandedSelector o.dialect ⟨component, parent⟩
        (ownSelector o.dialect component selector) with
    | ok expanded =>
      rw [step_inPlace (by simp [Scope.problem?, hx]) rfl]
      simp [inside, hx, Scope.rewritten, Scope.parentBelow, Node.children, Node.withChildren]
    | error e =>
      have hp : (Scope.inside component parent).problem? o.dialect (.rule selector children pos) =
          some (.failedMacro e (ownSelector o.dialect component selector)) := by
        simp [Scope.problem?, hx]
      rw [step_of_problem hp, report_of_cause rfl]
      simp [inside, hx, Node.pos]
  | block name params children pos =>
    by_cases hc : isComponent name
    · have hp : (Scope.inside component parent).problem? o.dialect
          (.block name params children pos) = some (.nestedComponent params component) := if_pos hc
      rw [step_of_problem hp, report_of_cause rfl]
      simp [inside, hc, Node.pos]
    · have hp : (Scope.inside component parent).problem? o.dialect
          (.block name params children pos) = none := if_neg hc
      rw [step_inPlace hp (by simp [opensNamed, hc])]
      simp [inside, hc, Scope.rewritten, Scope.parentBelow, Node.children, Node.withChildren]
  | statement name params pos =>
    by_cases hc : isComponent name
    · have hp : (Scope.inside component parent).problem? o.dialect (.statement name params pos) =
          some (.nestedComponent params component) := if_pos hc
      rw [step_of_problem hp, report_of_cause rfl]
      simp [inside, hc, Node.pos]
    · have hp : (Scope.inside component parent).problem? o.dialect (.statement name params pos) =
          none := if_neg hc
      rw [step_inPlace hp rfl]
      simp [inside, hc, Scope.rewritten, Node.children, Node.withChildren, insideAll]
  | declaration x pos =>
    rw [step_inPlace rfl rfl]
    rfl
  | comment text pos =>
    rw [step_inPlace rfl rfl]
    rfl

theorem walk_inside (o : Options) (component : Text) (parent : Option Text) (l : List Node) :
    walk o (.inside component parent) l = Hoisted.inPlace <$> insideAll o component parent l := by
  -- On the way down the selector of the parent changes, the component does not.
  generalize hs : Scope.inside component parent = scope
  fun_induction walk o scope l generalizing parent with
  | case1 =>
    rw [insideAll]
    rfl
  | case2 scope n l ihChildren ih =>
    subst hs
    rw [ihChildren _ rfl, step_inside, ih _ rfl, insideAll]
    simp [Hoisted.inPlace_append]

theorem step_outside (h : Scope.outside.below o.dialect n = .outside →
    walk o .outside n.children = hoistAll o n.children) :
    Scope.outside.step o n (walk o (Scope.outside.below o.dialect n) n.children) = hoist o n := by
  cases n with
  | rule selector children pos =>
    have hb : Scope.outside.below o.dialect (.rule selector children pos) = .outside := rfl
    rw [step_inPlace rfl rfl, hb, h hb, hoist]
    rfl
  | block name params children pos =>
    by_cases hc : isComponent name
    · cases hw : params.firstWord? with
      | none =>
        have hp : Scope.outside.problem? o.dialect (.block name params children pos) =
            some .missingName := by simp [Scope.problem?, hc, hw]
        rw [step_of_problem hp, hoist, if_pos hc]
        simp only [contents, hw]
        rfl
      | some component =>
        have hp : Scope.outside.problem? o.dialect (.block name params children pos) = none := by
          simp [Scope.problem?, hw]
        have hb : Scope.outside.below o.dialect (.block name params children pos) =
            .inside component none := by simp [Scope.below, hc, hw]
        rw [step_of_none hp, hb, walk_inside, hoist, if_pos hc]
        simp [contents, hw, Scope.placed, opensNamed, hc, Node.children]
    · have hp : Scope.outside.problem? o.dialect (.block name params children pos) = none := by
        simp [Scope.problem?, hc]
      have hb : Scope.outside.below o.dialect (.block name params children pos) = .outside :=
        if_neg hc
      rw [step_inPlace hp (by simp [opensNamed, hc]), hb, h hb, hoist, if_neg hc]
      rfl
  | statement name params pos =>
    by_cases hc : isComponent name
    · have hp : Scope.outside.problem? o.dialect (.statement name params pos) =
          some (params.firstWord?.elim .missingName .missingBlock) := if_pos hc
      rw [step_of_problem hp, hoist, if_pos hc]
      cases hw : params.firstWord? <;> simp only [contents, hw] <;> rfl
    · have hp : Scope.outside.problem? o.dialect (.statement name params pos) = none := if_neg hc
      rw [step_leaf rfl hp, hoist, if_neg hc]
      rfl
  | declaration x pos => exact step_leaf rfl rfl _
  | comment text pos => exact step_leaf rfl rfl _

theorem walk_outside (o : Options) (l : List Node) : walk o .outside l = hoistAll o l := by
  generalize hs : Scope.outside = scope
  fun_induction walk o scope l with
  | case1 => rw [hoistAll]
  | case2 scope n l ihChildren ih =>
    subst hs
    -- The children of a named component block are not outside; `walk_inside` is for them.
    have hn := step_outside (o := o) (n := n) fun hb => hb ▸ ihChildren hb.symm
    rw [hoistAll, hn, ih rfl]
    rfl

theorem expandSheet_eq_walk (o : Options) (sheet : List Node) :
    expandSheet o sheet = Hoisted.nodes <$> walk o .outside sheet := by
  rw [expandSheet, walk_outside]
  simp

end Component

end ComponentSheet
