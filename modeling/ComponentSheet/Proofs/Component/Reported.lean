import ComponentSheet.Component.Hoisting
import ComponentSheet.Proofs.Sheet.Nodes

/-! Diagnostics have the positions of nodes of the sheet that is expanded. -/
namespace ComponentSheet.Component

variable {α β : Type} {o : Options} {component selector name params : Text} {pos : Position}
  {n : Node} {children l m : List Node} {x : Diagnostic}

/-- All that is reported has the position of one of the nodes. -/
def Outcome.At (l : List Node) (y : Outcome α) : Prop :=
  ∀ x ∈ y.diagnostics, ∃ n ∈ nodesWithin l, n.pos = x.pos

theorem Outcome.At.mono {y : Outcome α} (h : y.At l) (hm : nodesWithin l ⊆ nodesWithin m) :
    y.At m := by
  intro x hx
  obtain ⟨n, hn, hp⟩ := h x hx
  exact ⟨n, hm hn, hp⟩

theorem Outcome.At.bind {y : Outcome α} {f : α → Outcome β} (h : y.At l) (hf : ∀ a, (f a).At l) :
    (y >>= f).At l := by
  change (y.bind f).At l
  cases y with
  | aborted cause log fatal => exact h
  | done a log =>
    have ha := hf a
    simp only [Outcome.bind]
    generalize f a = z at ha
    cases z with
    | done b more => exact List.forall_mem_append.2 ⟨h, ha⟩
    | aborted cause more fatal =>
      rw [Outcome.At, Outcome.diagnostics, List.append_assoc]
      exact List.forall_mem_append.2 ⟨h, ha⟩

theorem at_pure (l : List Node) (a : α) : (pure a : Outcome α).At l :=
  fun _ hx => by cases hx

theorem at_record (a : α) (hn : n ∈ nodesWithin l) (hp : n.pos = x.pos) :
    (Outcome.record x a).At l := by
  intro y hy
  obtain rfl := List.mem_singleton.1 hy
  exact ⟨n, hn, hp⟩

theorem at_fail {policy : Policy} {cause : Cause} (a : α) (hn : n ∈ nodesWithin l)
    (hp : n.pos = x.pos) : (Outcome.fail policy cause x a).At l := by
  cases policy with
  | abort =>
    intro y hy
    obtain rfl := List.mem_singleton.1 hy
    exact ⟨n, hn, hp⟩
  | leaveOut => exact at_record a hn hp

mutual

theorem at_inside (o : Options) (component : Text) (parent : Option Text) : (n : Node) →
    (inside o component parent n).At [n]
  | .rule selector children pos => by
    simp only [inside]
    split
    · exact ((at_insideAll o component _ children).mono nodesWithin_rule_children).bind
        fun _ => at_pure _ _
    · exact at_fail _ (mem_nodesWithin_self _ _) rfl
  | .block name params children pos => by
    simp only [inside]
    split
    · exact at_fail _ (mem_nodesWithin_self _ _) rfl
    · exact ((at_insideAll o component parent children).mono nodesWithin_block_children).bind
        fun _ => at_pure _ _
  | .statement name params pos => by
    simp only [inside]
    split
    · exact at_fail _ (mem_nodesWithin_self _ _) rfl
    · exact at_pure _ _
  | .declaration d pos => at_pure _ _
  | .comment text pos => at_pure _ _

theorem at_insideAll (o : Options) (component : Text) (parent : Option Text) : (l : List Node) →
    (insideAll o component parent l).At l
  | [] => at_pure _ _
  | n :: l => by
    simp only [insideAll]
    exact ((at_inside o component parent n).mono (nodesWithin_head n l)).bind fun _ =>
      ((at_insideAll o component parent l).mono (nodesWithin_tail n l)).bind fun _ => at_pure _ _

end

theorem at_contents {body : Option (List Node)} (hn : n ∈ nodesWithin l) (hp : n.pos = pos)
    (hb : ∀ children ∈ body, nodesWithin children ⊆ nodesWithin l) :
    (contents o params body pos).At l := by
  rw [contents.eq_def]
  split
  · exact at_record _ hn hp
  · exact at_record _ hn hp
  · exact (at_insideAll o _ none _).mono (hb _ rfl)

mutual

theorem at_hoist (o : Options) : (n : Node) → (hoist o n).At [n]
  | .rule selector children pos => by
    simp only [hoist]
    exact ((at_hoistAll o children).mono nodesWithin_rule_children).bind fun _ => at_pure _ _
  | .block name params children pos => by
    simp only [hoist]
    split
    · refine (at_contents (mem_nodesWithin_self _ _) rfl ?_).bind fun _ => at_pure _ _
      rintro _ ⟨⟩
      exact nodesWithin_block_children
    · exact ((at_hoistAll o children).mono nodesWithin_block_children).bind fun _ => at_pure _ _
  | .statement name params pos => by
    simp only [hoist]
    split
    · exact (at_contents (mem_nodesWithin_self _ _) rfl (by simp)).bind fun _ => at_pure _ _
    · exact at_pure _ _
  | .declaration d pos => at_pure _ _
  | .comment text pos => at_pure _ _

theorem at_hoistAll (o : Options) : (l : List Node) → (hoistAll o l).At l
  | [] => at_pure _ _
  | n :: l => by
    simp only [hoistAll]
    exact ((at_hoist o n).mono (nodesWithin_head n l)).bind fun _ =>
      ((at_hoistAll o l).mono (nodesWithin_tail n l)).bind fun _ => at_pure _ _

end

theorem exists_node_of_diagnostic {sheet : List Node}
    (h : x ∈ (expandSheet o sheet).diagnostics) : ∃ n ∈ nodesWithin sheet, n.pos = x.pos :=
  (at_hoistAll o sheet).bind (fun h => at_pure sheet h.nodes) x h

end ComponentSheet.Component
