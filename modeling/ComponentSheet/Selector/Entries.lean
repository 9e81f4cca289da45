import ComponentSheet.Selector.Segment

/-! The entries of a selector list. -/

namespace ComponentSheet.Selector

/-- The texts between the commas. -/
def pieces : List Segment → List Text
  | [] => [[]]
  | .token .comma :: l => [] :: pieces l
  | g :: l =>
    match pieces l with
    | [] => [g.text]
    | p :: ps => (g.text ++ p) :: ps

/-- The entries of a selector list, trimmed, without empty ones. -/
def entries (s : Text) : List Text :=
  ((pieces (segments s)).map Text.trim).filter (· ≠ [])

/-- A selector list with one entry a line. -/
def ofEntries (l : List Text) : Text :=
  Text.join [',', '\n'] l

/-- The text in front of the first comma and the text behind it. -/
def cutAtComma? : List Segment → Option (Text × Text)
  | [] => none
  | .token .comma :: l => some ([], textOf l)
  | g :: l => (cutAtComma? l).map fun p => (g.text ++ p.1, p.2)

theorem textOf_of_cutAtComma? {l : List Segment} {p : Text × Text} (h : cutAtComma? l = some p) :
    textOf l = p.1 ++ ',' :: p.2 := by
  fun_induction cutAtComma? l generalizing p with
  | case1 => cases h
  | case2 l =>
    cases h
    rfl
  | case3 g l _ ih =>
    obtain ⟨q, hq, rfl⟩ := Option.map_eq_some_iff.1 h
    rw [textOf_cons, ih hq, List.append_assoc]

end ComponentSheet.Selector
