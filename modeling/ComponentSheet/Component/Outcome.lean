import ComponentSheet.Component.Diagnostic
import ComponentSheet.Options

/-! Results with the diagnostics recorded on the way. -/

namespace ComponentSheet.Component

/-- What an expansion is given up for. -/
inductive Cause where
  /-- A selector that cannot be expanded. -/
  | selector
  /-- A component block in another one. -/
  | nesting
deriving DecidableEq, Repr

/-- A value and the diagnostics in the order of their recording, or the diagnostic that ended the
work and those before it. -/
inductive Outcome (α : Type) where
  | done (value : α) (log : List Diagnostic)
  | aborted (cause : Cause) (log : List Diagnostic) (fatal : Diagnostic)
deriving DecidableEq

namespace Outcome

variable {α β : Type}

def bind : Outcome α → (α → Outcome β) → Outcome β
  | done a log, f =>
    match f a with
    | done b more => done b (log ++ more)
    | aborted cause more fatal => aborted cause (log ++ more) fatal
  | aborted cause log fatal, _ => aborted cause log fatal

instance : Monad Outcome where
  pure a := done a []
  bind := bind

/-- The diagnostics, the one that ended the work included. -/
def diagnostics : Outcome α → List Diagnostic
  | done _ log => log
  | aborted _ log fatal => log ++ [fatal]

/-- A value that comes with a diagnostic. -/
def record (d : Diagnostic) (value : α) : Outcome α :=
  done value [d]

/-- An error. Unless it ends the work the value is used. -/
def fail (policy : Policy) (cause : Cause) (d : Diagnostic) (value : α) : Outcome α :=
  match policy with
  | .abort => aborted cause [] d
  | .leaveOut => record d value

end Outcome

end ComponentSheet.Component
