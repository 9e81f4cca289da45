import ComponentSheet.Text.Basic

/-! Paths with slashes between their components. -/

namespace ComponentSheet.Import

abbrev Path := Text

namespace Path

/-- A path to a directory, read backwards, without slashes and single dots at its end. A slash or
a dot that is all there is stays. -/
def trimBackwards : Path → Path
  | ['/'] => ['/']
  | '/' :: p => trimBackwards p
  | '.' :: '/' :: p => trimBackwards ('/' :: p)
  | p => p

/-- The path to the directory that holds a file: the path without its last component. -/
def parent (file : Path) : Path :=
  (trimBackwards (file.reverse.dropWhile (· ≠ '/'))).reverse

/-- The path that `p` is when seen from a directory. An absolute path stays as it is. -/
def join (dir p : Path) : Path :=
  if ['/'].isPrefixOf p ∨ dir = [] then p
  else if dir.getLast? = some '/' then dir ++ p
  else dir ++ '/' :: p

end Path

end ComponentSheet.Import
