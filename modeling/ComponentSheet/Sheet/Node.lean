import ComponentSheet.Sheet.Position

/-! The nodes of a stylesheet. -/

namespace ComponentSheet

structure Declaration where
  property : Text
  value : Text
  important : Bool
deriving DecidableEq, Repr

inductive Node where
  | rule (selector : Text) (children : List Node) (pos : Position)
  /-- An at-rule with a block. -/
  | block (name params : Text) (children : List Node) (pos : Position)
  /-- An at-rule without a block. -/
  | statement (name params : Text) (pos : Position)
  | declaration (d : Declaration) (pos : Position)
  | comment (text : Text) (pos : Position)

namespace Node

def pos : Node → Position
  | rule _ _ p | block _ _ _ p | statement _ _ p | declaration _ p | comment _ p => p

def hasBlock : Node → Bool
  | rule .. | block .. => true
  | _ => false

mutual

def decEq : (m n : Node) → Decidable (m = n)
  | rule s ms p, rule t ns q =>
    match decEqAll ms ns with
    | .isTrue h =>
      if h' : s = t ∧ p = q then .isTrue (by rw [h, h'.1, h'.2])
      else .isFalse (by rintro ⟨⟩; exact h' ⟨rfl, rfl⟩)
    | .isFalse h => .isFalse (by rintro ⟨⟩; exact h rfl)
  | block a s ms p, block b t ns q =>
    match decEqAll ms ns with
    | .isTrue h =>
      if h' : a = b ∧ s = t ∧ p = q then .isTrue (by rw [h, h'.1, h'.2.1, h'.2.2])
      else .isFalse (by rintro ⟨⟩; exact h' ⟨rfl, rfl, rfl⟩)
    | .isFalse h => .isFalse (by rintro ⟨⟩; exact h rfl)
  | statement a s p, statement b t q => decidable_of_iff (a = b ∧ s = t ∧ p = q) (by simp)
  | declaration d p, declaration e q => decidable_of_iff (d = e ∧ p = q) (by simp)
  | comment s p, comment t q => decidable_of_iff (s = t ∧ p = q) (by simp)
  | rule .., block .. | rule .., statement .. | rule .., declaration .. | rule .., comment ..
  | block .., rule .. | block .., statement .. | block .., declaration .. | block .., comment ..
  | statement .., rule .. | statement .., block .. | statement .., declaration ..
  | statement .., comment .. | declaration .., rule .. | declaration .., block ..
  | declaration .., statement .. | declaration .., comment .. | comment .., rule ..
  | comment .., block .. | comment .., statement .. | comment .., declaration .. =>
    .isFalse nofun

def decEqAll : (ms ns : List Node) → Decidable (ms = ns)
  | [], [] => .isTrue rfl
  | m :: ms, n :: ns =>
    match decEq m n, decEqAll ms ns with
    | .isTrue h, .isTrue h' => .isTrue (by rw [h, h'])
    | .isFalse h, _ => .isFalse (by rintro ⟨⟩; exact h rfl)
    | _, .isFalse h => .isFalse (by rintro ⟨⟩; exact h rfl)
  | [], _ :: _ | _ :: _, [] => .isFalse nofun

end

instance : DecidableEq Node := decEq

end Node

end ComponentSheet
