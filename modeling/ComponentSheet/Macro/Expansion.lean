import ComponentSheet.Macro.Call
import ComponentSheet.Macro.Dialect

/-! Selectors with every macro call replaced by what it stands for. -/

namespace ComponentSheet.Macro

/-- Replaces the leftmost call of one of `kinds`, again and again, until none is left. Also gives
the part of the budget that is left, where each replacement costs one. -/
def replaceCalls (d : Dialect) (ctx : Context) (kinds : List Kind) :
    Nat → Text → Except Failure (Nat × Text)
  | budget, s => do
    match ← findCall kinds s with
    | none => return (budget, s)
    | some call =>
      match budget with
      | 0 => throw .endless
      | budget + 1 =>
        let replacement ← d.resolve ctx call.kind call.params
        replaceCalls d ctx kinds budget (call.replacedBy replacement)

/-- Expands a selector with a budget for all passes together. -/
def expandWithin (d : Dialect) (ctx : Context) (budget : Nat) (s : Text) :
    Except Failure (Nat × Text) :=
  d.passes.foldlM (fun r kinds => replaceCalls d ctx kinds r.1 r.2) (budget, s)

/-- More replacements than a selector can need, unless the component's name makes each one bring
back a call. -/
def budgetFor (ctx : Context) (s : Text) : Nat :=
  (s.length + 1) * (ctx.component.length + 1)

def expand (d : Dialect) (ctx : Context) (s : Text) : Except Failure Text :=
  (expandWithin d ctx (budgetFor ctx s) s).map (·.2)

end ComponentSheet.Macro
