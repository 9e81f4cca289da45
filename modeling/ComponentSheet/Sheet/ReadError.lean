import ComponentSheet.Sheet.Position

/-! Why a text is no stylesheet. -/

namespace ComponentSheet

inductive ReadError where
  | missingSelector (pos : Position)
  /-- The position is that of the innermost open block. -/
  | unclosedBlock (pos : Position)
  | unexpectedClose (pos : Position)
  | invalidDeclaration (text : Text) (pos : Position)
  | unterminatedComment (pos : Position)
  | unterminatedString (pos : Position)
deriving DecidableEq, Repr

namespace ReadError

def pos : ReadError → Position
  | missingSelector p | unclosedBlock p | unexpectedClose p | invalidDeclaration _ p
  | unterminatedComment p | unterminatedString p => p

def reason : ReadError → Text
  | missingSelector _ => "missing selector before '\x7b'".toList
  | unclosedBlock _ => "block is never closed".toList
  | unexpectedClose _ => "unexpected '\x7d'".toList
  | invalidDeclaration text _ => "invalid declaration '".toList ++ text ++ ['\'']
  | unterminatedComment _ => "unterminated comment".toList
  | unterminatedString _ => "unterminated string".toList

def message (e : ReadError) : Text :=
  e.pos.text ++ ": ".toList ++ e.reason

end ReadError

end ComponentSheet
