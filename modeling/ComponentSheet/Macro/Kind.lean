import ComponentSheet.Text.Basic

/-! The kinds of selector macros. -/

namespace ComponentSheet.Macro

inductive Kind where
  | content
  | component
  | attr
  | variant
  | state
deriving DecidableEq, Repr

namespace Kind

def name : Kind → Text
  | content => "content".toList
  | component => "component".toList
  | attr => "attribute".toList
  | variant => "variant".toList
  | state => "state".toList

def all : List Kind := [content, component, attr, variant, state]

def ofName? (n : Text) : Option Kind :=
  all.find? (·.name = n)

theorem ofName?_eq_some_iff {n : Text} {k : Kind} : ofName? n = some k ↔ k.name = n := by
  constructor
  · intro h
    simpa using List.find?_some h
  · rintro rfl
    cases k <;> decide

end Kind

/-- Why a selector cannot be expanded. -/
inductive Failure where
  /-- A call without closing parenthesis, or with blank parameters. -/
  | missingParameter (kind : Kind)
  /-- Replacing calls has made new calls for as long as the budget allows. -/
  | endless
deriving DecidableEq, Repr

def Failure.message : Failure → Text
  | .missingParameter kind => kind.name ++ "() requires a parameter".toList
  | .endless => "expansion does not end".toList

end ComponentSheet.Macro
