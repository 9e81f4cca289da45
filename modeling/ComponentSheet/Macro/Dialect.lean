import ComponentSheet.Macro.Kind
import ComponentSheet.Naming
import ComponentSheet.Selector.Entries
import ComponentSheet.Text.Dashed

/-! What macro calls stand for. The flat dialect writes class names with the name of the
component in them, the other one the selectors of custom elements: hosts, slots and attributes. -/

namespace ComponentSheet.Macro

inductive Dialect where
  | flat
  | webComponent
deriving DecidableEq, Repr

/-- What a macro call may depend on besides its parameters. -/
structure Context where
  component : Text
  /-- The selector of the rule around the rule of the call. -/
  parent : Option Text
deriving DecidableEq

def Context.underHost (ctx : Context) : Bool :=
  ctx.parent.any (·.trim = ":host".toList)

/-- The parameters of a content call: the slot, and behind a comma the selector of what is put
into it. -/
def slotAndContent (params : Text) : Text × Option Text :=
  match Selector.cutAtComma? (Selector.segments params) with
  | some (slot, content) =>
    (slot.trim, if content.trim = [] then none else some content.trim)
  | none => (params, none)

namespace Dialect

/-- The kinds that are expanded in each pass over a selector. A slot takes its content into
parentheses, so that the macros in it are expanded first. -/
def passes : Dialect → List (List Kind)
  | flat => [Kind.all]
  | webComponent => [[.component, .attr, .variant, .state], [.content]]

/-- Whether plain classes, ids and hosts take the name of the component, too. -/
def brandsPlainSelectors : Dialect → Bool
  | flat => true
  | webComponent => false

def content (d : Dialect) (ctx : Context) (slot : Text) (content : Option Text) : Text :=
  match d with
  | flat => '.' :: elementName ctx.component slot
  | webComponent =>
    "slot[name=\"".toList ++ slot ++ "\"]::slotted(".toList ++ content.getD ['*'] ++ [')']

def component (d : Dialect) (name : Text) : Text :=
  match d with
  | flat => '.' :: blockName name
  | webComponent => blockName name.dashed

/-- In both dialects the attribute is a class. -/
def attr (ctx : Context) (name : Text) : Text :=
  '.' :: elementName ctx.component name

def variant (d : Dialect) (ctx : Context) (name : Text) : Text :=
  match d with
  | flat => '.' :: elementName ctx.component ('-' :: name)
  | webComponent => ":host([".toList ++ name ++ "])".toList

/-- A state is a pseudo-class if it starts with a colon. Directly under a host the selector is its
argument. -/
def state (d : Dialect) (ctx : Context) (name : Text) : Text :=
  match d with
  | flat => if [':'].isPrefixOf name then '&' :: name else "&.is-".toList ++ name
  | webComponent =>
    let condition := if [':'].isPrefixOf name then name else '[' :: name ++ [']']
    if ctx.underHost then '&' :: '(' :: condition ++ [')'] else '&' :: condition

section

variable {ctx : Context} {slot name : Text} {inside : Option Text}

theorem content_flat : flat.content ctx slot inside = '.' :: elementName ctx.component slot := by
  unfold Dialect.content
  rfl

theorem content_webComponent :
    webComponent.content ctx slot inside =
      "slot[name=\"".toList ++ slot ++ "\"]::slotted(".toList ++ inside.getD ['*'] ++ [')'] := by
  unfold Dialect.content
  rfl

theorem component_flat : flat.component name = '.' :: blockName name := rfl

theorem component_webComponent : webComponent.component name = blockName name.dashed := rfl

theorem variant_flat : flat.variant ctx name = '.' :: elementName ctx.component ('-' :: name) := by
  unfold Dialect.variant
  rfl

theorem variant_webComponent :
    webComponent.variant ctx name = ":host([".toList ++ name ++ "])".toList := by
  unfold Dialect.variant
  rfl

end

/-- The text that a call with these parameters stands for. -/
def resolve (d : Dialect) (ctx : Context) (kind : Kind) (params : Text) : Except Failure Text :=
  let params := params.trim
  if params = [] then .error (.missingParameter kind)
  else
    match kind with
    | .content =>
      let (slot, content) := slotAndContent params
      if slot = [] then .error (.missingParameter .content) else .ok (d.content ctx slot content)
    | .component => .ok (d.component params)
    | .attr => .ok (attr ctx params)
    | .variant => .ok (d.variant ctx params)
    | .state => .ok (d.state ctx params)

/-- What a call with these parameters stands for, kind by kind. -/
theorem resolve_cases {d : Dialect} {ctx : Context} {kind : Kind} {params r : Text}
    (h : d.resolve ctx kind params = .ok r) :
    params.trim ≠ [] ∧
      ((kind = .content ∧ (slotAndContent params.trim).1 ≠ [] ∧
          r = d.content ctx (slotAndContent params.trim).1 (slotAndContent params.trim).2) ∨
        (kind = .component ∧ r = d.component params.trim) ∨
        (kind = .attr ∧ r = attr ctx params.trim) ∨
        (kind = .variant ∧ r = d.variant ctx params.trim) ∨
        (kind = .state ∧ r = d.state ctx params.trim)) := by
  simp only [resolve] at h
  split at h
  · cases h
  · rename_i hp
    refine ⟨hp, ?_⟩
    cases kind with
    | content =>
      dsimp only at h
      split at h
      · cases h
      · rename_i hs
        exact Or.inl ⟨rfl, hs, (Except.ok.inj h).symm⟩
    | component => exact Or.inr (Or.inl ⟨rfl, (Except.ok.inj h).symm⟩)
    | attr => exact Or.inr (Or.inr (Or.inl ⟨rfl, (Except.ok.inj h).symm⟩))
    | variant => exact Or.inr (Or.inr (Or.inr (Or.inl ⟨rfl, (Except.ok.inj h).symm⟩)))
    | state => exact Or.inr (Or.inr (Or.inr (Or.inr ⟨rfl, (Except.ok.inj h).symm⟩)))

end Dialect

end ComponentSheet.Macro
