import ComponentSheet.Selector.Segment

/-! Where the tokens of a selector stand: byte ranges, from the first byte up to the byte behind
the last. -/

namespace ComponentSheet.Selector

structure Placed where
  token : Token
  /-- The bytes in front of the token. -/
  start : Nat
  /-- Whether the token is the first simple selector of its compound. -/
  opensCompound : Bool

def Placed.stop (p : Placed) : Nat :=
  p.start + p.token.lexeme.byteLength

/-- The byte range of the arguments, without their parentheses. -/
def Placed.argumentRange? (p : Placed) : Option (Nat × Nat) :=
  p.token.arguments?.map fun (opening, args) =>
    let first := p.start + opening.byteLength
    (first, first + args.byteLength)

/-- The tokens among the segments that follow `start` bytes. -/
def placedFrom (start : Nat) (inCompound : Bool) : List Segment → List Placed
  | [] => []
  | .blanks w :: l => placedFrom (start + w.byteLength) inCompound l
  | .token t :: l =>
    ⟨t, start, !inCompound⟩ :: placedFrom (start + t.lexeme.byteLength) t.isSimple l

def placed (s : Text) : List Placed :=
  placedFrom 0 false (segments s)

end ComponentSheet.Selector
