import ComponentSheet.Component.Hoisting

/-! What comes of each kind of node, in a component block and outside. -/
namespace ComponentSheet.Component

variable {o : Options} {component selector name params : Text} {parent : Option Text}
  {pos : Position} {n : Node} {children l nodes result : List Node} {h : Hoisted}
  {log : List Diagnostic}

namespace Outcome

variable {α β γ : Type}

theorem bind_eq_done {x : Outcome α} {f : α → Outcome β} {b : β} :
    (x >>= f) = .done b log ↔
      ∃ a l₁ l₂, x = .done a l₁ ∧ f a = .done b l₂ ∧ log = l₁ ++ l₂ := by
  change x.bind f = _ ↔ _
  constructor
  · intro hx
    cases x with
    | aborted => cases hx
    | done a l₁ =>
      rw [Outcome.bind] at hx
      split at hx
      · rename_i c l₂ hf
        cases hx
        exact ⟨a, l₁, l₂, rfl, hf, rfl⟩
      · cases hx
  · rintro ⟨a, l₁, l₂, rfl, hf, rfl⟩
    simp [Outcome.bind, hf]

theorem pure_eq_done {a b : α} : (pure a : Outcome α) = .done b log ↔ a = b ∧ log = [] := by
  change Outcome.done a [] = _ ↔ _
  simp [eq_comm]

theorem pure_bind (a : α) (f : α → Outcome β) : Outcome.bind (pure a) f = f a := by
  change Outcome.bind (.done a []) f = f a
  rw [Outcome.bind]
  cases f a <;> rfl

theorem bind_assoc (x : Outcome α) (f : α → Outcome β) (g : β → Outcome γ) :
    (x.bind f).bind g = x.bind fun a => (f a).bind g := by
  cases x with
  | aborted => rfl
  | done a log =>
    rw [Outcome.bind, Outcome.bind]
    cases f a with
    | aborted => rfl
    | done b more =>
      simp only [Outcome.bind]
      cases g b <;> simp

instance : LawfulMonad Outcome :=
  LawfulMonad.mk' Outcome
    (fun x => by cases x <;> simp [Functor.map, Outcome.bind])
    pure_bind bind_assoc

theorem eq_of_fail {policy : Policy} {cause : Cause} {e : Diagnostic} {a b : α}
    (h : fail policy cause e a = .done b log) : b = a := by
  cases policy with
  | abort => cases h
  | leaveOut => exact (done.inj h).1.symm

end Outcome

open Outcome

theorem inside_rule
    (h : inside o component parent (.rule selector children pos) = .done nodes log) :
    (∃ expanded inner l,
        expandedSelector o.dialect ⟨component, parent⟩ (ownSelector o.dialect component selector) =
            .ok expanded ∧
          insideAll o component (some expanded) children = .done inner l ∧
          nodes = [.rule expanded inner pos]) ∨
      ∃ e, expandedSelector o.dialect ⟨component, parent⟩
          (ownSelector o.dialect component selector) = .error e ∧ nodes = [] := by
  rw [inside] at h
  split at h
  · rename_i expanded hx
    obtain ⟨inner, l₁, l₂, hi, hp, -⟩ := bind_eq_done.1 h
    exact Or.inl ⟨expanded, inner, l₁, hx, hi, (pure_eq_done.1 hp).1.symm⟩
  · rename_i e hx
    exact Or.inr ⟨e, hx, eq_of_fail h⟩

theorem inside_block
    (h : inside o component parent (.block name params children pos) = .done nodes log) :
    isComponent name ∧ nodes = [] ∨
      ¬ isComponent name ∧ ∃ inner l, insideAll o component parent children = .done inner l ∧
        nodes = [.block name params inner pos] := by
  rw [inside] at h
  split at h
  · rename_i hc
    exact Or.inl ⟨hc, eq_of_fail h⟩
  · rename_i hc
    obtain ⟨inner, l₁, l₂, hi, hp, -⟩ := bind_eq_done.1 h
    exact Or.inr ⟨hc, inner, l₁, hi, (pure_eq_done.1 hp).1.symm⟩

theorem inside_leaf (hn : n.hasBlock = false)
    (h : inside o component parent n = .done nodes log) : nodes = [] ∨ nodes = [n] := by
  cases n with
  | rule s c p => cases hn
  | block m q c p => cases hn
  | statement m q p =>
    rw [inside] at h
    split at h
    · exact Or.inl (eq_of_fail h)
    · exact Or.inr (pure_eq_done.1 h).1.symm
  | declaration d p => exact Or.inr (pure_eq_done.1 h).1.symm
  | comment t p => exact Or.inr (pure_eq_done.1 h).1.symm

theorem insideAll_cons (h : insideAll o component parent (n :: l) = .done nodes log) :
    ∃ first rest l₁ l₂, inside o component parent n = .done first l₁ ∧
      insideAll o component parent l = .done rest l₂ ∧ nodes = first ++ rest := by
  rw [insideAll] at h
  obtain ⟨first, l₁, k, hf, h, -⟩ := bind_eq_done.1 h
  obtain ⟨rest, l₂, j, hr, h, -⟩ := bind_eq_done.1 h
  exact ⟨first, rest, l₁, l₂, hf, hr, (pure_eq_done.1 h).1.symm⟩

theorem hoist_rule (hh : hoist o (.rule selector children pos) = .done h log) :
    ∃ inner l, hoistAll o children = .done inner l ∧
      h = ⟨[.rule selector inner.nodes pos], []⟩ := by
  rw [hoist] at hh
  obtain ⟨inner, l₁, l₂, hi, hp, -⟩ := bind_eq_done.1 hh
  exact ⟨inner, l₁, hi, (pure_eq_done.1 hp).1.symm⟩

theorem hoist_block (hh : hoist o (.block name params children pos) = .done h log) :
    (isComponent name ∧ ∃ moved l, contents o params (some children) pos = .done moved l ∧
        h = ⟨[], moved⟩) ∨
      ¬ isComponent name ∧ ∃ inner l, hoistAll o children = .done inner l ∧
        h = ⟨[.block name params inner.nodes pos], []⟩ := by
  rw [hoist] at hh
  split at hh
  · rename_i hc
    obtain ⟨moved, l₁, l₂, hm, hp, -⟩ := bind_eq_done.1 hh
    exact Or.inl ⟨hc, moved, l₁, hm, (pure_eq_done.1 hp).1.symm⟩
  · rename_i hc
    obtain ⟨inner, l₁, l₂, hi, hp, -⟩ := bind_eq_done.1 hh
    exact Or.inr ⟨hc, inner, l₁, hi, (pure_eq_done.1 hp).1.symm⟩

theorem contents_some (h : contents o params (some children) pos = .done nodes log) :
    nodes = [] ∧ params.firstWord? = none ∨
      ∃ component, params.firstWord? = some component ∧
        insideAll o component none children = .done nodes log := by
  cases hw : params.firstWord? with
  | none =>
    simp only [contents, hw] at h
    exact Or.inl ⟨(done.inj h).1.symm, rfl⟩
  | some component =>
    simp only [contents, hw] at h
    exact Or.inr ⟨component, rfl, h⟩

theorem contents_none (h : contents o params none pos = .done nodes log) : nodes = [] := by
  unfold contents at h
  split at h
  · exact (done.inj h).1.symm
  · exact (done.inj h).1.symm
  · contradiction

theorem hoist_leaf (hn : n.hasBlock = false) (hh : hoist o n = .done h log) :
    h = ⟨[], []⟩ ∨ h = ⟨[n], []⟩ := by
  cases n with
  | rule s c p => cases hn
  | block m q c p => cases hn
  | statement m q p =>
    rw [hoist] at hh
    split at hh
    · obtain ⟨moved, l₁, l₂, hm, hp, -⟩ := bind_eq_done.1 hh
      obtain rfl := contents_none hm
      exact Or.inl (pure_eq_done.1 hp).1.symm
    · exact Or.inr (pure_eq_done.1 hh).1.symm
  | declaration d p => exact Or.inr (pure_eq_done.1 hh).1.symm
  | comment t p => exact Or.inr (pure_eq_done.1 hh).1.symm

theorem hoistAll_cons_eq_done : hoistAll o (n :: l) = .done h log ↔
    ∃ first rest l₁ l₂, hoist o n = .done first l₁ ∧ hoistAll o l = .done rest l₂ ∧
      h = ⟨first.staying ++ rest.staying, first.moved ++ rest.moved⟩ ∧ log = l₁ ++ l₂ := by
  rw [hoistAll]
  constructor
  · intro hh
    obtain ⟨first, l₁, k, hf, hk, rfl⟩ := bind_eq_done.1 hh
    obtain ⟨rest, l₂, j, hr, hj, rfl⟩ := bind_eq_done.1 hk
    obtain ⟨rfl, rfl⟩ := pure_eq_done.1 hj
    exact ⟨first, rest, l₁, l₂, hf, hr, rfl, by simp⟩
  · rintro ⟨first, rest, l₁, l₂, hf, hr, rfl, rfl⟩
    exact bind_eq_done.2 ⟨first, l₁, l₂, hf, bind_eq_done.2 ⟨rest, l₂, [], hr,
      pure_eq_done.2 ⟨rfl, rfl⟩, by simp⟩, rfl⟩

theorem expandSheet_eq_done : expandSheet o l = .done result log ↔
    ∃ h, hoistAll o l = .done h log ∧ result = h.nodes := by
  rw [expandSheet]
  constructor
  · intro hx
    obtain ⟨h, l₁, l₂, hh, hp, rfl⟩ := bind_eq_done.1 hx
    obtain ⟨rfl, rfl⟩ := pure_eq_done.1 hp
    exact ⟨h, by simpa using hh, rfl⟩
  · rintro ⟨h, hh, rfl⟩
    exact bind_eq_done.2 ⟨h, log, [], hh, pure_eq_done.2 ⟨rfl, rfl⟩, by simp⟩

end ComponentSheet.Component
