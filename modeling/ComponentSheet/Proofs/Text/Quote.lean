import ComponentSheet.Text.Basic

/-! The quotes that strings stand in. -/
namespace ComponentSheet

inductive Quote where
  | double
  | single
deriving DecidableEq

namespace Quote

variable {c : Char} {q : Quote}

def char : Quote → Char
  | double => '"'
  | single => '\''

def ofChar? (c : Char) : Option Quote :=
  if c = '"' then some .double else if c = '\'' then some .single else none

theorem ofChar?_eq_some_iff : ofChar? c = some q ↔ c = q.char := by
  cases q <;> simp only [ofChar?, char] <;> grind

theorem ofChar?_eq_none_iff : ofChar? c = none ↔ ¬ (c = '"' ∨ c = '\'') := by
  simp only [ofChar?]
  grind

theorem char_ne_backslash (q : Quote) : q.char ≠ '\\' := by
  cases q <;> decide

theorem isBlank_char (q : Quote) : isBlank q.char = false := by
  cases q <;> decide

end Quote

end ComponentSheet
