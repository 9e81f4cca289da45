import ComponentSheet.Component.Hoisting
import ComponentSheet.Sheet.Printing
import ComponentSheet.Sheet.Reading

/-! From the text of a stylesheet to the text of its expansion. -/

namespace ComponentSheet

open Component

/-- Reads, expands and prints a stylesheet. -/
def compile (o : Options) (s : Text) : Except ReadError (Outcome Text) := do
  let sheet ← readSheet s
  return printSheet <$> expandSheet o sheet

end ComponentSheet
