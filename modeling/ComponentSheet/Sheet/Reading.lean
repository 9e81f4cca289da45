import ComponentSheet.Sheet.Event

/-! Reading a stylesheet: its nodes are put together from the events of its text. -/

namespace ComponentSheet

/-- An open block, and the nodes of its parent in front of it, the last one first. -/
structure Frame where
  opening : Opening
  pos : Position
  before : List Node

/-- The nodes of a stylesheet, given the open blocks from the innermost one outwards, the nodes
read so far in the innermost one, the last one first, and the events to come. -/
def nodesOfEvents : List Frame → List Node → List Event → Except ReadError (List Node)
  | [], nodes, [] => .ok nodes.reverse
  | f :: _, _, [] => .error (.unclosedBlock f.pos)
  | frames, nodes, .opens opening pos :: es => nodesOfEvents (⟨opening, pos, nodes⟩ :: frames) [] es
  | [], _, .closes pos :: _ => .error (.unexpectedClose pos)
  | f :: frames, nodes, .closes _ :: es =>
    nodesOfEvents frames (f.opening.node f.pos nodes.reverse :: f.before) es
  | frames, nodes, .node n :: es => nodesOfEvents frames (n :: nodes) es
  | _, _, .fault e :: _ => .error e

/-- Reads a text as a stylesheet. -/
def readSheet (s : Text) : Except ReadError (List Node) :=
  nodesOfEvents [] [] (eventsOf (stamp Position.first s))

end ComponentSheet
