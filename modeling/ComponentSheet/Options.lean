import ComponentSheet.Macro.Dialect

/-! What can be chosen about an expansion. -/

namespace ComponentSheet

/-- What happens at an error. -/
inductive Policy where
  /-- The whole expansion fails. -/
  | abort
  /-- The node with the error is left out, and the error is recorded. -/
  | leaveOut
deriving DecidableEq, Repr

structure Options where
  dialect : Macro.Dialect := .flat
  onError : Policy := .abort
deriving DecidableEq, Repr

/-- A way to write options as a text: the options that a text stands for, or what is wrong with the
text. -/
abbrev Options.Format := Text → Except Text Options

end ComponentSheet
