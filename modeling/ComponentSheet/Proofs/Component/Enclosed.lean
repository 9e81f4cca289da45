import ComponentSheet.Proofs.Component.Partition
import ComponentSheet.Proofs.Macro.State

/-! The rule around a rule in the block of a component. Its selector is handed down as it is in the
result, through at-rules and from nowhere outside the block. -/
namespace ComponentSheet.Component

open Macro Outcome

/-- What may become of a rule: given the selector of the next rule around it as it is in the result,
if there is one, and its own selector as it is written, the selector that it gets. It gets none if
it is left out. -/
abbrev Rewriting := Option Text → Text → Option Text → Prop

/-- Nodes in the block of a component and what has become of them. The first argument is the
selector of the next rule around the nodes in the result; at-rules do not change it. -/
inductive Rewritten (P : Rewriting) : Option Text → List Node → List Node → Prop
  | nil {around : Option Text} : Rewritten P around [] []
  | rule {around : Option Text} {written selector : Text} {pos : Position}
      {children inner l result : List Node} (hp : P around written (some selector))
      (hi : Rewritten P (some selector) children inner) (hl : Rewritten P around l result) :
      Rewritten P around (.rule written children pos :: l) (.rule selector inner pos :: result)
  | leftOut {around : Option Text} {written : Text} {pos : Position} {children l result : List Node}
      (hp : P around written none) (hl : Rewritten P around l result) :
      Rewritten P around (.rule written children pos :: l) result
  | block {around : Option Text} {name params : Text} {pos : Position}
      {children inner l result : List Node} (hn : ¬ isComponent name)
      (hi : Rewritten P around children inner) (hl : Rewritten P around l result) :
      Rewritten P around (.block name params children pos :: l)
        (.block name params inner pos :: result)
  | component {around : Option Text} {n : Node} {l result : List Node} (hn : opensComponent n)
      (hl : Rewritten P around l result) : Rewritten P around (n :: l) result
  | leaf {around : Option Text} {n : Node} {l result : List Node} (hb : n.hasBlock = false)
      (hn : opensComponent n = false) (hl : Rewritten P around l result) :
      Rewritten P around (n :: l) (n :: result)

/-- Nodes outside component blocks, those of the result that stay and those that move behind them.
In a block no rule is around the nodes at first, wherever the block stands. -/
inductive Hoists (P : Text → Rewriting) : List Node → List Node → List Node → Prop
  | nil : Hoists P [] [] []
  | rule {selector : Text} {pos : Position} {children staying moved l s m : List Node}
      (hi : Hoists P children staying moved) (hl : Hoists P l s m) :
      Hoists P (.rule selector children pos :: l) (.rule selector (staying ++ moved) pos :: s) m
  | block {name params : Text} {pos : Position} {children staying moved l s m : List Node}
      (hn : ¬ isComponent name) (hi : Hoists P children staying moved) (hl : Hoists P l s m) :
      Hoists P (.block name params children pos :: l)
        (.block name params (staying ++ moved) pos :: s) m
  | component {name params component : Text} {pos : Position} {children inner l s m : List Node}
      (hn : isComponent name) (hc : params.firstWord? = some component)
      (hi : Rewritten (P component) none children inner) (hl : Hoists P l s m) :
      Hoists P (.block name params children pos :: l) s (inner ++ m)
  | nameless {name params : Text} {pos : Position} {children l s m : List Node}
      (hn : isComponent name) (hc : params.firstWord? = none) (hl : Hoists P l s m) :
      Hoists P (.block name params children pos :: l) s m
  | statement {name params : Text} {pos : Position} {l s m : List Node} (hn : isComponent name)
      (hl : Hoists P l s m) : Hoists P (.statement name params pos :: l) s m
  | leaf {n : Node} {l s m : List Node} (hb : n.hasBlock = false) (hn : opensComponent n = false)
      (hl : Hoists P l s m) : Hoists P (n :: l) (n :: s) m

variable {P : Text → Rewriting} {o : Options} {policy : Policy} {component : Text}
  {around : Option Text} {n : Node} {l nodes result sheet : List Node} {h : Hoisted}
  {log : List Diagnostic}

/-- Nodes without a block, in the block of a component. -/
theorem rewritten_of_leaf {Q : Rewriting} {first rest : List Node} (hb : n.hasBlock = false)
    (hi : inside o component around n = .done first log) (hl : Rewritten Q around l rest) :
    Rewritten Q around (n :: l) (first ++ rest) := by
  cases n with
  | rule => cases hb
  | block => cases hb
  | statement name params pos =>
    rw [inside] at hi
    split at hi
    · rename_i hn
      obtain rfl := eq_of_fail hi
      exact .component hn hl
    · rename_i hn
      obtain ⟨rfl, -⟩ := pure_eq_done.1 hi
      exact .leaf rfl (eq_false_of_ne_true hn) hl
  | declaration d pos =>
    obtain ⟨rfl, -⟩ := pure_eq_done.1 hi
    exact .leaf rfl rfl hl
  | comment text pos =>
    obtain ⟨rfl, -⟩ := pure_eq_done.1 hi
    exact .leaf rfl rfl hl

theorem hoists_of_leaf {rest : Hoisted} (hb : n.hasBlock = false) (hh : hoist o n = .done h log)
    (hl : Hoists P l rest.staying rest.moved) :
    Hoists P (n :: l) (h.staying ++ rest.staying) (h.moved ++ rest.moved) := by
  cases n with
  | rule => cases hb
  | block => cases hb
  | statement name params pos =>
    rw [hoist] at hh
    split at hh
    · rename_i hn
      obtain ⟨moved, l₁, l₂, hm, hp, -⟩ := bind_eq_done.1 hh
      obtain rfl := contents_none hm
      obtain ⟨rfl, -⟩ := pure_eq_done.1 hp
      exact .statement hn hl
    · rename_i hn
      obtain ⟨rfl, -⟩ := pure_eq_done.1 hh
      exact .leaf rfl (eq_false_of_ne_true hn) hl
  | declaration d pos =>
    obtain ⟨rfl, -⟩ := pure_eq_done.1 hh
    exact .leaf rfl rfl hl
  | comment text pos =>
    obtain ⟨rfl, -⟩ := pure_eq_done.1 hh
    exact .leaf rfl rfl hl

/-- The rules of blocks are rewritten by their expansion, whatever rules are around them. -/
def Expands (o : Options) (P : Text → Rewriting) : Prop :=
  ∀ component around written, P component around written
    (expandedSelector o.dialect ⟨component, around⟩
      (ownSelector o.dialect component written)).toOption

mutual

theorem rewritten_inside (hP : Expands o P) : (n : Node) → ∀ {around first log l rest},
    inside o component around n = .done first log → Rewritten (P component) around l rest →
      Rewritten (P component) around (n :: l) (first ++ rest)
  | .rule written children pos, around, first, log, l, rest, hi, hl => by
    have hp := hP component around written
    rcases inside_rule hi with ⟨selector, inner, k, hx, hc, rfl⟩ | ⟨e, hx, rfl⟩
    · rw [hx] at hp
      exact .rule hp (rewritten_insideAll hP children hc) hl
    · rw [hx] at hp
      exact .leftOut hp hl
  | .block name params children pos, around, first, log, l, rest, hi, hl => by
    rcases inside_block hi with ⟨hn, rfl⟩ | ⟨hn, inner, k, hc, rfl⟩
    · exact .component hn hl
    · exact .block hn (rewritten_insideAll hP children hc) hl
  | .statement .., _, _, _, _, _, hi, hl => rewritten_of_leaf rfl hi hl
  | .declaration .., _, _, _, _, _, hi, hl => rewritten_of_leaf rfl hi hl
  | .comment .., _, _, _, _, _, hi, hl => rewritten_of_leaf rfl hi hl

theorem rewritten_insideAll (hP : Expands o P) : (l : List Node) → ∀ {around nodes log},
    insideAll o component around l = .done nodes log → Rewritten (P component) around l nodes
  | [], around, nodes, log, hi => by
    obtain ⟨rfl, -⟩ := pure_eq_done.1 hi
    exact .nil
  | n :: l, around, nodes, log, hi => by
    obtain ⟨first, rest, l₁, l₂, hf, hr, rfl⟩ := insideAll_cons hi
    exact rewritten_inside hP n hf (rewritten_insideAll hP l hr)

end

mutual

theorem hoists_hoist (hP : Expands o P) : (n : Node) → ∀ {h : Hoisted} {log l} {rest : Hoisted},
    hoist o n = .done h log → Hoists P l rest.staying rest.moved →
      Hoists P (n :: l) (h.staying ++ rest.staying) (h.moved ++ rest.moved)
  | .rule selector children pos, h, log, l, rest, hh, hl => by
    obtain ⟨inner, k, hi, rfl⟩ := hoist_rule hh
    exact .rule (hoists_hoistAll hP children hi) hl
  | .block name params children pos, h, log, l, rest, hh, hl => by
    rcases hoist_block hh with ⟨hn, moved, k, hm, rfl⟩ | ⟨hn, inner, k, hi, rfl⟩
    · rcases contents_some hm with ⟨rfl, hc⟩ | ⟨component, hc, hi⟩
      · exact .nameless hn hc hl
      · exact .component hn hc (rewritten_insideAll hP children hi) hl
    · exact .block hn (hoists_hoistAll hP children hi) hl
  | .statement .., _, _, _, _, hh, hl => hoists_of_leaf rfl hh hl
  | .declaration .., _, _, _, _, hh, hl => hoists_of_leaf rfl hh hl
  | .comment .., _, _, _, _, hh, hl => hoists_of_leaf rfl hh hl

theorem hoists_hoistAll (hP : Expands o P) :
    (l : List Node) → ∀ {h : Hoisted} {log}, hoistAll o l = .done h log →
    Hoists P l h.staying h.moved
  | [], h, log, hh => by
    obtain ⟨rfl, -⟩ := pure_eq_done.1 hh
    exact .nil
  | n :: l, h, log, hh => by
    obtain ⟨first, rest, l₁, l₂, hf, hr, rfl, rfl⟩ := hoistAll_cons_eq_done.1 hh
    exact hoists_hoist hP n hf (hoists_hoistAll hP l hr)

end

/-- What becomes of a rule in the block of a component where the host of the component is an element
of its own. A rule for a state is never left out, and the rule around it decides about its form. -/
def StateWritten (component : Text) : Rewriting := fun around written outcome =>
  outcome = (expandedSelector .webComponent ⟨component, around⟩ written).toOption ∧
    ∀ n, CallsState n written → outcome = some (stateSelector around n)

theorem expands_stateWritten (policy : Policy) : Expands ⟨.webComponent, policy⟩ StateWritten := by
  intro component around written
  have hown : ownSelector .webComponent component written = written := rfl
  rw [hown]
  refine ⟨rfl, fun n hn => ?_⟩
  rw [expandedSelector_of_callsState ⟨component, around⟩ hn]
  rfl

/-- The next rule around a rule for a state within the block of its component, as it is in the
result, decides about the form of the state: at-rules between the two are passed over, and rules
around the block do not count. -/
theorem hoists_of_expandSheet (hx : expandSheet ⟨.webComponent, policy⟩ sheet = .done result log) :
    ∃ staying moved, Hoists StateWritten sheet staying moved ∧ result = staying ++ moved := by
  obtain ⟨h, hh, rfl⟩ := expandSheet_eq_done.1 hx
  exact ⟨h.staying, h.moved, hoists_hoistAll (expands_stateWritten policy) sheet hh, rfl⟩

theorem hoists_of_expandSheet_nested :
    let state (name : String) (children : List Node) (pos : Position) : Node :=
      .rule ("state(".toList ++ name.toList ++ [')']) children pos
    let sheet : List Node := [.rule ":host".toList
      [.block "component".toList "Button".toList
        [state "open" [] ⟨3, 5⟩,
          .rule ":host".toList
            [.block "media".toList "print".toList
              [state "busy" [state "late" [] ⟨7, 11⟩] ⟨6, 9⟩] ⟨5, 7⟩] ⟨4, 5⟩] ⟨2, 3⟩] ⟨1, 1⟩]
    let result : List Node := [.rule ":host".toList
      [.rule "&[open]".toList [] ⟨3, 5⟩,
        .rule ":host".toList
          [.block "media".toList "print".toList
            [.rule "&([busy])".toList [.rule "&[late]".toList [] ⟨7, 11⟩] ⟨6, 9⟩] ⟨5, 7⟩] ⟨4, 5⟩]
      ⟨1, 1⟩]
    expandSheet ⟨.webComponent, .abort⟩ sheet = .done result [] ∧
      ∃ staying moved, Hoists StateWritten sheet staying moved ∧ result = staying ++ moved := by
  intro state sheet result
  have hx : expandSheet ⟨.webComponent, .abort⟩ sheet = .done result [] := by decide +kernel
  exact ⟨hx, hoists_of_expandSheet hx⟩

/-- The next rule around the state in the result is one for the host, but not in the block: the
state is not put in parentheses. -/
theorem stateSelector_ne_hoisted :
    let sheet : List Node := [.rule ":host".toList
      [.block "component".toList "Button".toList [.rule "state(open)".toList [] ⟨1, 29⟩] ⟨1, 9⟩]
      ⟨1, 1⟩]
    CallsState "open".toList "state(open)".toList ∧
      expandSheet ⟨.webComponent, .abort⟩ sheet =
        .done [.rule ":host".toList [.rule "&[open]".toList [] ⟨1, 29⟩] ⟨1, 1⟩] [] ∧
      stateSelector (some ":host".toList) "open".toList ≠ "&[open]".toList := by
  refine ⟨?_, by decide +kernel, by decide⟩
  exact callsState_of_unescaped (by decide) (by decide) (by decide)

end ComponentSheet.Component
