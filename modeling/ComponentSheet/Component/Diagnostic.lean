import ComponentSheet.Macro.Kind
import ComponentSheet.Sheet.Position

/-! What is reported about component blocks and the rules in them. -/

namespace ComponentSheet.Component

inductive Severity where
  | warning
  | error
deriving DecidableEq, Repr

def Severity.text : Severity → Text
  | warning => "warning".toList
  | error => "error".toList

inductive Problem where
  | missingName
  /-- A named component block that has no body. -/
  | missingBlock (component : Text)
  /-- A rule with a selector that cannot be expanded. -/
  | failedMacro (failure : Macro.Failure) (selector : Text)
  /-- A component block with the parameters `inner` in a block of the component `outer`. -/
  | nestedComponent (inner outer : Text)
deriving DecidableEq, Repr

namespace Problem

def severity : Problem → Severity
  | missingName | missingBlock _ => .warning
  | failedMacro .. | nestedComponent .. => .error

def code : Problem → Text
  | missingName => "missing-component-name".toList
  | missingBlock _ => "missing-component-block".toList
  | failedMacro (.missingParameter _) _ => "missing-macro-parameter".toList
  | failedMacro .endless _ => "endless-macro-expansion".toList
  | nestedComponent .. => "nested-component".toList

def message : Problem → Text
  | missingName => "@component rule without component name".toList
  | missingBlock component => "@component ".toList ++ component ++ " has no block".toList
  | failedMacro failure selector =>
    failure.message ++ " in selector \x60".toList ++ selector ++ "\x60".toList
  | nestedComponent inner outer =>
    "@component ".toList ++ inner ++ " is nested inside @component ".toList ++ outer

end Problem

structure Diagnostic where
  problem : Problem
  pos : Position
deriving DecidableEq, Repr

namespace Diagnostic

def severity (d : Diagnostic) : Severity :=
  d.problem.severity

/-- The diagnostic with another text for its position. -/
def textAt (d : Diagnostic) (position : Text) : Text :=
  d.severity.text ++ '[' :: d.problem.code ++ "] ".toList ++ position ++ ": ".toList ++
    d.problem.message

def text (d : Diagnostic) : Text :=
  d.textAt d.pos.text

end Diagnostic

end ComponentSheet.Component
