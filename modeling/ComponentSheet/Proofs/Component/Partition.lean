import ComponentSheet.Proofs.Component.Hoisting

/-! Expanding a sheet parts it into the nodes that stay and the contents of its component blocks;
each node is expanded as it would be alone. -/
namespace ComponentSheet.Component

open Outcome

variable {α : Type} {o : Options} {n : Node} {l result : List Node} {h : Hoisted}
  {log : List Diagnostic}

def Outcome.Succeeds (x : Outcome α) : Prop :=
  ∃ a log, x = .done a log

/-- The nodes that come of an expansion, if it succeeds. -/
def Outcome.nodes : Outcome (List Node) → List Node
  | done nodes _ => nodes
  | aborted .. => []

/-- An at-rule for a component, with a block or without. -/
def opensComponent : Node → Bool
  | .block name _ _ _ | .statement name _ _ => isComponent name
  | _ => false

/-- A sheet that holds nothing but the node, expanded. -/
def alone (o : Options) (n : Node) : Outcome (List Node) :=
  expandSheet o [n]

/-- What the component blocks among the nodes give, each for itself. -/
def moved (o : Options) (l : List Node) : List Node :=
  (l.filter opensComponent).flatMap fun n => (alone o n).nodes

mutual

/-- The node with the contents of the component blocks in it behind the other nodes around them. -/
def settled (o : Options) : Node → Node
  | .rule selector children pos => .rule selector (staying o children ++ moved o children) pos
  | .block name params children pos =>
    .block name params (staying o children ++ moved o children) pos
  | n => n

/-- The nodes that are no component blocks. -/
def staying (o : Options) : List Node → List Node
  | [] => []
  | n :: l => if opensComponent n then staying o l else settled o n :: staying o l

end

theorem staying_eq_map (o : Options) (l : List Node) :
    staying o l = (l.filter fun n => !opensComponent n).map (settled o) := by
  induction l with
  | nil => rfl
  | cons n l ih =>
    rw [staying, ih]
    by_cases hn : opensComponent n
    · simp [hn]
    · simp [hn]

theorem alone_eq_done : alone o n = .done result log ↔
    ∃ h, hoist o n = .done h log ∧ result = h.nodes := by
  rw [alone, expandSheet_eq_done]
  constructor
  · rintro ⟨h, hh, rfl⟩
    obtain ⟨first, rest, l₁, l₂, hf, hr, rfl, rfl⟩ := hoistAll_cons_eq_done.1 hh
    obtain ⟨rfl, rfl⟩ := pure_eq_done.1 hr
    exact ⟨first, by simpa using hf, by simp [Hoisted.nodes]⟩
  · rintro ⟨h, hh, rfl⟩
    exact ⟨h, hoistAll_cons_eq_done.2 ⟨h, {}, log, [], hh, pure_eq_done.2 ⟨rfl, rfl⟩, by simp,
      by simp⟩, rfl⟩

theorem nodes_alone (hh : hoist o n = .done h log) : (alone o n).nodes = h.nodes := by
  rw [alone_eq_done.2 ⟨h, hh, rfl⟩, Outcome.nodes]

theorem staying_of_component (hn : opensComponent n) (hh : hoist o n = .done h log) :
    h.staying = [] := by
  cases n with
  | block name params children pos =>
    rcases hoist_block hh with ⟨-, moved, l, -, rfl⟩ | ⟨hc, -⟩
    · rfl
    · exact absurd hn hc
  | statement name params pos =>
    have hc : isComponent name := hn
    rw [hoist, if_pos hc] at hh
    obtain ⟨moved, l₁, l₂, -, hp, -⟩ := bind_eq_done.1 hh
    rw [← (pure_eq_done.1 hp).1]
  | rule | declaration | comment => cases hn

mutual

theorem hoist_settled : (n : Node) → ∀ {h log}, opensComponent n = false →
    hoist o n = .done h log → h = ⟨[settled o n], []⟩
  | .rule selector children pos, h, log, _, hh => by
    obtain ⟨inner, l, hi, rfl⟩ := hoist_rule hh
    rw [hoistAll_nodes children hi, settled, Hoisted.nodes]
  | .block name params children pos, h, log, hn, hh => by
    rcases hoist_block hh with ⟨hc, -⟩ | ⟨-, inner, l, hi, rfl⟩
    · exact absurd hc (by simpa [opensComponent] using hn)
    · rw [hoistAll_nodes children hi, settled, Hoisted.nodes]
  | .statement name params pos, h, log, hn, hh => by
    rw [hoist, if_neg (by simpa [opensComponent] using hn)] at hh
    exact (pure_eq_done.1 hh).1.symm
  | .declaration d pos, h, log, _, hh => (pure_eq_done.1 hh).1.symm
  | .comment text pos, h, log, _, hh => (pure_eq_done.1 hh).1.symm

theorem hoistAll_nodes : (l : List Node) → ∀ {h log}, hoistAll o l = .done h log →
    h = ⟨staying o l, moved o l⟩
  | [], h, log, hh => (pure_eq_done.1 hh).1.symm
  | n :: l, h, log, hh => by
    obtain ⟨first, rest, l₁, l₂, hf, hr, rfl, rfl⟩ := hoistAll_cons_eq_done.1 hh
    rw [hoistAll_nodes l hr, staying, moved]
    -- A component block leaves nothing in its place; all other nodes move nothing.
    cases hn : opensComponent n with
    | true =>
      have hs : first.staying = [] := staying_of_component hn hf
      have hm : (alone o n).nodes = first.moved := by
        rw [nodes_alone hf, Hoisted.nodes, hs, List.nil_append]
      simp [hs, hm, hn, moved]
    | false =>
      rw [hoist_settled n hn hf]
      simp [hn, moved]

end

theorem hoistAll_succeeds_iff :
    (∃ h log, hoistAll o l = .done h log) ↔ ∀ n ∈ l, (alone o n).Succeeds := by
  induction l with
  | nil => exact iff_of_true ⟨{}, [], rfl⟩ (by simp)
  | cons n l ih =>
    rw [List.forall_mem_cons, ← ih]
    constructor
    · rintro ⟨h, log, hh⟩
      obtain ⟨first, rest, l₁, l₂, hf, hr, -, -⟩ := hoistAll_cons_eq_done.1 hh
      exact ⟨⟨first.nodes, l₁, alone_eq_done.2 ⟨first, hf, rfl⟩⟩, rest, l₂, hr⟩
    · rintro ⟨⟨nodes, l₁, hn⟩, rest, l₂, hr⟩
      obtain ⟨first, hf, -⟩ := alone_eq_done.1 hn
      exact ⟨_, _, hoistAll_cons_eq_done.2 ⟨first, rest, l₁, l₂, hf, hr, rfl, rfl⟩⟩

theorem log_of_hoistAll (hh : hoistAll o l = .done h log) :
    log = l.flatMap fun n => (alone o n).diagnostics := by
  induction l generalizing h log with
  | nil => exact (pure_eq_done.1 hh).2
  | cons n l ih =>
    obtain ⟨first, rest, l₁, l₂, hf, hr, -, rfl⟩ := hoistAll_cons_eq_done.1 hh
    rw [List.flatMap_cons, ← ih hr, alone_eq_done.2 ⟨first, hf, rfl⟩, diagnostics]

theorem alone_eq (o : Options) (n : Node) :
    alone o n = hoist o n >>= fun h => pure h.nodes := by
  simp [alone, expandSheet, hoistAll, Hoisted.nodes]

theorem alone_rule (o : Options) (selector : Text) (children : List Node) (pos : Position) :
    alone o (.rule selector children pos) =
      expandSheet o children >>= fun inner => pure [.rule selector inner pos] := by
  simp [alone_eq, hoist, expandSheet, Hoisted.nodes]

theorem alone_block (o : Options) (name params : Text) (children : List Node) (pos : Position) :
    alone o (.block name params children pos) =
      if isComponent name then contents o params (some children) pos
      else expandSheet o children >>= fun inner => pure [.block name params inner pos] := by
  rw [alone_eq, hoist]
  split
  · simp [Hoisted.nodes]
  · simp [expandSheet, Hoisted.nodes]

/-- A sheet is expanded exactly if each of its nodes is expanded alone. The nodes that are no
component blocks come first, each with its children rearranged in the same way, then what each
component block gives alone, all in the order of the sheet; so are the diagnostics. Rules and
at-rules that are no components are expanded as the sheets of their children are. -/
theorem expandSheet_eq_done_iff_alone (o : Options) :
    (∀ sheet result log, expandSheet o sheet = .done result log ↔
      (∀ n ∈ sheet, (alone o n).Succeeds) ∧
        result = (sheet.filter fun n => !opensComponent n).map (settled o) ++
          (sheet.filter opensComponent).flatMap (fun n => (alone o n).nodes) ∧
        log = sheet.flatMap fun n => (alone o n).diagnostics) ∧
      (∀ selector children pos, alone o (.rule selector children pos) =
        expandSheet o children >>= fun inner => pure [.rule selector inner pos]) ∧
      ∀ name params children pos, alone o (.block name params children pos) =
        if isComponent name then contents o params (some children) pos
        else expandSheet o children >>= fun inner => pure [.block name params inner pos] := by
  refine ⟨fun sheet result log => ?_, alone_rule o, alone_block o⟩
  rw [← staying_eq_map, ← hoistAll_succeeds_iff, expandSheet_eq_done]
  constructor
  · rintro ⟨h, hh, rfl⟩
    refine ⟨⟨h, log, hh⟩, ?_, log_of_hoistAll hh⟩
    rw [hoistAll_nodes sheet hh, Hoisted.nodes, moved]
  · rintro ⟨⟨h, log', hh⟩, rfl, rfl⟩
    refine ⟨h, (log_of_hoistAll hh) ▸ hh, ?_⟩
    rw [hoistAll_nodes sheet hh, Hoisted.nodes, moved]

end ComponentSheet.Component
