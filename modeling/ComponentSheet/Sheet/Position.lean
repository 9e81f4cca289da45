import ComponentSheet.Text.Basic

/-! Positions in a text: lines and columns counted from one. -/

namespace ComponentSheet

/-- A position; line and column are both zero where nothing is known. -/
structure Position where
  line : Nat
  column : Nat
deriving DecidableEq, Repr

namespace Position

def unknown : Position := ⟨0, 0⟩

def first : Position := ⟨1, 1⟩

/-- The position behind a character. Only a line feed ends a line. -/
def next (p : Position) (c : Char) : Position :=
  if c = '\n' then ⟨p.line + 1, 1⟩ else ⟨p.line, p.column + 1⟩

/-- The position behind a text that starts at `p`. -/
def after (p : Position) (s : Text) : Position :=
  s.foldl next p

def text (p : Position) : Text :=
  if p = unknown then "<unknown>".toList
  else Nat.toDigits 10 p.line ++ ':' :: Nat.toDigits 10 p.column

end Position

/-- A text whose characters know their positions. -/
abbrev Stamped := List (Char × Position)

/-- A text that starts at `p`, with the position of each character. -/
def stamp (p : Position) : Text → Stamped
  | [] => []
  | c :: s => (c, p) :: stamp (p.next c) s

variable {p : Position} {c : Char} {s t : Text}

@[simp] theorem Position.after_nil : p.after [] = p := rfl

@[simp] theorem Position.after_cons : p.after (c :: s) = (p.next c).after s := rfl

@[simp] theorem Position.after_append : p.after (s ++ t) = (p.after s).after t :=
  List.foldl_append

@[simp] theorem stamp_nil : stamp p [] = [] := rfl

@[simp] theorem stamp_cons : stamp p (c :: s) = (c, p) :: stamp (p.next c) s := rfl

theorem stamp_append : stamp p (s ++ t) = stamp p s ++ stamp (p.after s) t := by
  induction s generalizing p with
  | nil => rfl
  | cons c s ih => simp [ih]

theorem map_fst_stamp (p : Position) (s : Text) : (stamp p s).map (·.1) = s := by
  induction s generalizing p with
  | nil => rfl
  | cons c s ih => simp [ih]

end ComponentSheet
