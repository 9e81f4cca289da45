import ComponentSheet.Sheet.Node

/-! The printed form of a stylesheet: four blanks for each level, one node a line, and a blank line
in front of every top-level block but the first node. -/

namespace ComponentSheet

def indentation (depth : Nat) : Text :=
  List.replicate (4 * depth) ' '

def Declaration.text (d : Declaration) : Text :=
  d.property ++ ": ".toList ++ d.value ++ if d.important then " !important".toList else []

/-- The lines of a selector, each trimmed and indented. -/
def selectorText (depth : Nat) (selector : Text) : Text :=
  Text.join ['\n'] (selector.lines.map fun l => indentation depth ++ l.trim)

/-- The name of an at-rule and its parameters. -/
def atRuleText (depth : Nat) (name params : Text) : Text :=
  indentation depth ++ '@' :: name ++ if params = [] then [] else ' ' :: params

mutual

/-- The rows that a node is printed in. A row ends with its line; only a selector has several lines
in a row. -/
def rows (depth : Nat) : Node → List Text
  | .rule selector children _ =>
    (selectorText depth selector ++ " \x7b\n".toList) :: rowsAll (depth + 1) children ++
      [indentation depth ++ "\x7d\n".toList]
  | .block name params children _ =>
    (atRuleText depth name params ++ " \x7b\n".toList) :: rowsAll (depth + 1) children ++
      [indentation depth ++ "\x7d\n".toList]
  | .statement name params _ => [atRuleText depth name params ++ [';', '\n']]
  | .declaration d _ => [indentation depth ++ d.text ++ [';', '\n']]
  | .comment text _ => [indentation depth ++ "/* ".toList ++ text ++ " */\n".toList]

def rowsAll (depth : Nat) : List Node → List Text
  | [] => []
  | n :: l => rows depth n ++ rowsAll depth l

end

def printNode (depth : Nat) (n : Node) : Text :=
  (rows depth n).flatten

/-- The text of a stylesheet. -/
def printSheet : List Node → Text
  | [] => []
  | n :: l =>
    printNode 0 n ++ l.flatMap fun m => if m.hasBlock then '\n' :: printNode 0 m else printNode 0 m

end ComponentSheet
