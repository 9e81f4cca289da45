import ComponentSheet.Text.Basic

/-! Replacing byte ranges of a text. -/

namespace ComponentSheet.Text

/-- A replacement for the bytes from `start` up to, but without, `stop`. -/
structure Edit where
  start : Nat
  stop : Nat
  replacement : Text

/-- Applies edits in the order of their ranges to the text behind the first `pos` bytes. -/
def spliceFrom (pos : Nat) (s : Text) : List Edit → Text
  | [] => s
  | e :: es =>
    let kept := splitBytes (e.start - pos) s
    let covered := splitBytes (e.stop - e.start) kept.2
    kept.1 ++ e.replacement ++ spliceFrom e.stop covered.2 es

/-- The text with every edit applied. The ranges are disjoint and lie between characters; edits
that start together are applied in the order given. -/
def splice (s : Text) (edits : List Edit) : Text :=
  spliceFrom 0 s (edits.mergeSort fun a b => a.start ≤ b.start)

end ComponentSheet.Text
