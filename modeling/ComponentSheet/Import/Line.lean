import ComponentSheet.Import.Path

/-! The lines of a file, told apart into imports and all others. -/

namespace ComponentSheet.Import

/-- The path a line imports, if the line is nothing but an import of one quoted path. -/
def target? (line : Text) : Option Path := do
  let rest ← Text.behind? "@import".toList line.trim
  let rest := rest.trimStart
  guard (rest.getLast? = some ';')
  match Text.trim rest.dropLast with
  | [] => none
  | quote :: path =>
    guard ((quote = '"' ∨ quote = '\'') ∧ path.getLast? = some quote)
    return path.dropLast

/-- Where the text of a line leads to. A string ends with its line, a comment does not. -/
inductive Inside where
  | nothing
  | comment
  | string (quote : Char)
deriving DecidableEq

/-- Where the characters of a line lead to. -/
def insideAfter : Inside → Text → Inside
  | i, [] => i
  | .comment, '*' :: '/' :: s => insideAfter .nothing s
  | .comment, _ :: s => insideAfter .comment s
  | .string q, '\\' :: _ :: s => insideAfter (.string q) s
  | .string q, c :: s => insideAfter (if c = q then .nothing else .string q) s
  | .nothing, '/' :: '*' :: s => insideAfter .comment s
  | .nothing, c :: s => insideAfter (if c = '"' ∨ c = '\'' then .string c else .nothing) s

/-- Whether a comment is open behind a line. -/
def commentOpenAfter (openBefore : Bool) (line : Text) : Bool :=
  insideAfter (if openBefore then .comment else .nothing) line = .comment

inductive Line where
  | plain (number : Nat) (text : Text)
  | imported (path : Path)
deriving DecidableEq

/-- The lines of a file from the given number on. In a comment nothing is an import. -/
def linesFrom (number : Nat) (commentOpen : Bool) : List Text → List Line
  | [] => []
  | l :: ls =>
    let line :=
      match if commentOpen then none else target? l with
      | some path => .imported path
      | none => .plain number l
    line :: linesFrom (number + 1) (commentOpenAfter commentOpen l) ls

def fileLines (text : Text) : List Line :=
  linesFrom 1 false text.lines

end ComponentSheet.Import
