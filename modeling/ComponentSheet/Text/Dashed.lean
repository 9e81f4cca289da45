import ComponentSheet.Text.Casing

/-! The dashed form of a name: `ActionButton` becomes `action-button`. -/

namespace ComponentSheet.Text

/-- The dashed form of a text that follows the character `before`. A dash goes in front of an
upper-case character that follows a lower-case one; a dash after a dash is left out. -/
def dashedAfter (before : Option Char) : Text → Text
  | [] => []
  | c :: s =>
    if c = '-' ∧ before = some '-' then dashedAfter (some c) s
    else if isUpper c ∧ before.any isLower then '-' :: lowered c ++ dashedAfter (some c) s
    else lowered c ++ dashedAfter (some c) s

def dashed (name : Text) : Text :=
  dashedAfter none name

end ComponentSheet.Text
