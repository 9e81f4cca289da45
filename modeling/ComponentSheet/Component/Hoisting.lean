import ComponentSheet.Component.Outcome
import ComponentSheet.Macro.Expansion
import ComponentSheet.Selector.Branded
import ComponentSheet.Sheet.Node

/-! Component blocks are replaced by their contents, which move behind the other nodes of the
parent. The selectors in a block are written for the component that the block names. -/

namespace ComponentSheet.Component

def isComponent (atRule : Text) : Bool :=
  atRule = "component".toList

/-- The selector with its plain classes, ids and hosts in the scheme of the component, where the
dialect asks for it. -/
def ownSelector (d : Macro.Dialect) (component selector : Text) : Text :=
  if d.brandsPlainSelectors then Selector.branded component selector else selector

/-- The selector with its macro calls expanded entry by entry. Without calls its layout stays. -/
def expandedSelector (d : Macro.Dialect) (ctx : Macro.Context) (selector : Text) :
    Except Macro.Failure Text :=
  if Macro.containsCall selector then
    ((Selector.entries selector).mapM (Macro.expand d ctx)).map Selector.ofEntries
  else .ok selector

mutual

/-- The nodes that replace a node inside the block of a component. The parent is the selector of
the rule around the node. -/
def inside (o : Options) (component : Text) (parent : Option Text) : Node → Outcome (List Node)
  | .rule selector children pos =>
    let own := ownSelector o.dialect component selector
    match expandedSelector o.dialect ⟨component, parent⟩ own with
    | .ok expanded => do
      let children ← insideAll o component (some expanded) children
      return [.rule expanded children pos]
    | .error failure => .fail o.onError .selector ⟨.failedMacro failure own, pos⟩ []
  | .block name params children pos =>
    if isComponent name then
      .fail o.onError .nesting ⟨.nestedComponent params component, pos⟩ []
    else do
      let children ← insideAll o component parent children
      return [.block name params children pos]
  | .statement name params pos =>
    if isComponent name then
      .fail o.onError .nesting ⟨.nestedComponent params component, pos⟩ []
    else return [.statement name params pos]
  | .declaration d pos => return [.declaration d pos]
  | .comment text pos => return [.comment text pos]

def insideAll (o : Options) (component : Text) (parent : Option Text) :
    List Node → Outcome (List Node)
  | [] => return []
  | n :: l => do
    let first ← inside o component parent n
    let rest ← insideAll o component parent l
    return first ++ rest

end

/-- The contents of a component block at `pos`, which has no body if `children` is `none`. -/
def contents (o : Options) (params : Text) (children : Option (List Node)) (pos : Position) :
    Outcome (List Node) :=
  match params.firstWord?, children with
  | none, _ => .record ⟨.missingName, pos⟩ []
  | some component, none => .record ⟨.missingBlock component, pos⟩ []
  | some component, some children => insideAll o component none children

/-- Nodes that stay in their place, and nodes that move behind all that stay. -/
structure Hoisted where
  staying : List Node := []
  moved : List Node := []

def Hoisted.nodes (h : Hoisted) : List Node :=
  h.staying ++ h.moved

mutual

/-- What becomes of a node outside component blocks. -/
def hoist (o : Options) : Node → Outcome Hoisted
  | .rule selector children pos => do
    let children ← hoistAll o children
    return { staying := [.rule selector children.nodes pos] }
  | .block name params children pos =>
    if isComponent name then do
      let nodes ← contents o params (some children) pos
      return { moved := nodes }
    else do
      let children ← hoistAll o children
      return { staying := [.block name params children.nodes pos] }
  | .statement name params pos =>
    if isComponent name then do
      let nodes ← contents o params none pos
      return { moved := nodes }
    else return { staying := [.statement name params pos] }
  | .declaration d pos => return { staying := [.declaration d pos] }
  | .comment text pos => return { staying := [.comment text pos] }

def hoistAll (o : Options) : List Node → Outcome Hoisted
  | [] => return {}
  | n :: l => do
    let first ← hoist o n
    let rest ← hoistAll o l
    return ⟨first.staying ++ rest.staying, first.moved ++ rest.moved⟩

end

/-- Expands the component blocks of a stylesheet. -/
def expandSheet (o : Options) (sheet : List Node) : Outcome (List Node) :=
  return (← hoistAll o sheet).nodes

end ComponentSheet.Component
