import ComponentSheet.Sheet.Node
import ComponentSheet.Sheet.ReadError
import ComponentSheet.Text.Alphanumeric

/-! The events of a stylesheet's text: blocks that open and close, the nodes between them, and
faults. What follows the first fault has no meaning. -/

namespace ComponentSheet

namespace Declaration

/-- A value without its mark of importance, and whether it had one. -/
def splitImportant (value : Text) : Text × Bool :=
  match Text.cutAt? '!' value.reverse with
  | some (mark, kept) =>
    if Text.equalsIgnoringCase (Text.trim mark.reverse) "important".toList then
      (Text.trimEnd kept.reverse, true)
    else (value, false)
  | none => (value, false)

/-- The declaration that a trimmed text is: a property in front of its first colon, and a value. -/
def ofText? (s : Text) : Option Declaration :=
  match Text.cutAt? ':' s with
  | some (property, value) =>
    if property.trim = [] then none
    else
      let (value, important) := splitImportant value.trim
      some ⟨property.trim, value, important⟩
  | none => none

end Declaration

/-- What opens a block. -/
inductive Opening where
  | rule (selector : Text)
  | block (name params : Text)
deriving DecidableEq

def Opening.node (pos : Position) (children : List Node) : Opening → Node
  | .rule selector => .rule selector children pos
  | .block name params => .block name params children pos

inductive Event where
  | opens (opening : Opening) (pos : Position)
  | closes (pos : Position)
  /-- A node without a block. -/
  | node (n : Node)
  | fault (e : ReadError)
deriving DecidableEq

namespace Event

open Text

/-- The body of a comment, for text behind its opening, and the text behind its end. -/
def comment : Stamped → Option (Text × Stamped)
  | [] => none
  | ('*', _) :: ('/', _) :: s => some ([], s)
  | (c, _) :: s => took c (comment s)

/-- The rest of a string with its closing quote, for text behind the opening one, and the text
behind it. A line feed has to be escaped. -/
def quoted (quote : Char) : Stamped → Option (Text × Stamped)
  | [] => none
  | ('\\', _) :: (c, _) :: s => took '\\' (took c (quoted quote s))
  | (c, _) :: s =>
    if c = quote then some ([c], s) else if c = '\n' then none else took c (quoted quote s)

theorem length_comment {s : Stamped} {p : Text × Stamped} (h : comment s = some p) :
    p.2.length < s.length := by
  fun_induction comment s generalizing p with
  | case1 => simp at h
  | case2 => cases h; simp only [List.length_cons]; omega
  | case3 c _ s _ ih =>
    obtain ⟨q, hq, rfl⟩ := took_eq_some_iff.1 h
    have := ih hq
    simp only [List.length_cons]; omega

theorem length_quoted {quote : Char} {s : Stamped} {p : Text × Stamped}
    (h : quoted quote s = some p) : p.2.length < s.length := by
  fun_induction quoted quote s generalizing p with
  | case1 => simp at h
  | case2 _ c _ s ih =>
    obtain ⟨q, hq, rfl⟩ := took_eq_some_iff.1 h
    obtain ⟨r, hr, rfl⟩ := took_eq_some_iff.1 hq
    have := ih hr
    simp only [List.length_cons]; omega
  | case3 => cases h; simp
  | case4 => simp at h
  | case5 c _ s _ _ _ ih =>
    obtain ⟨q, hq, rfl⟩ := took_eq_some_iff.1 h
    have := ih hq
    simp only [List.length_cons]; omega

/-- How a prelude ends: at a semicolon, at the brace that opens a block, or with neither. -/
inductive Ending where
  | semicolon
  | brace
  | bare
deriving DecidableEq

structure Prelude where
  text : Text
  ending : Ending
  rest : Stamped

/-- The depth of brackets behind a character. A closing bracket too many counts for nothing. -/
def depthAfter (c : Char) (depth : Nat) : Nat :=
  if c = '(' ∨ c = '[' then depth + 1 else if c = ')' ∨ c = ']' then depth - 1 else depth

/-- Reads up to the next semicolon or brace outside brackets, strings and comments. Comments are
left out of the text; a closing brace belongs to the rest. -/
def prelude (depth : Nat) : Stamped → Except ReadError Prelude
  | [] => .ok ⟨[], .bare, []⟩
  | ('/', p) :: ('*', _) :: s =>
    match _hc : comment s with
    | some (_, rest) => prelude depth rest
    | none => .error (.unterminatedComment p)
  | (c, p) :: s =>
    if c = '"' ∨ c = '\'' then
      match _hq : quoted c s with
      | some (text, rest) =>
        (prelude depth rest).map fun r => { r with text := c :: text ++ r.text }
      | none => .error (.unterminatedString p)
    else if depth = 0 ∧ c = ';' then .ok ⟨[], .semicolon, s⟩
    else if depth = 0 ∧ c = '{' then .ok ⟨[], .brace, s⟩
    else if depth = 0 ∧ c = '}' then .ok ⟨[], .bare, (c, p) :: s⟩
    else (prelude (depthAfter c depth) s).map fun r => { r with text := c :: r.text }
termination_by s => s.length
decreasing_by
  · have : rest.length < s.length := length_comment _hc
    simp only [List.length_cons]
    omega
  · have : rest.length < s.length := length_quoted _hq
    simp only [List.length_cons]
    omega
  · simp

theorem exists_of_map_eq_ok {α β ε : Type} {f : α → β} {x : Except ε α} {b : β}
    (h : x.map f = .ok b) : ∃ a, x = .ok a ∧ f a = b := by
  cases x with
  | error => simp [Except.map] at h
  | ok a => exact ⟨a, rfl, by simpa [Except.map] using h⟩

theorem length_prelude_le {depth : Nat} {s : Stamped} {r : Prelude}
    (h : prelude depth s = .ok r) : r.rest.length ≤ s.length := by
  fun_induction prelude depth s generalizing r with
  | case1 => cases h; simp
  | case2 _ _ _ s _ rest hc ih =>
    have := ih h
    have : rest.length < s.length := length_comment hc
    simp only [List.length_cons]; omega
  | case3 => simp at h
  | case4 _ c p s _ _ text rest hq ih =>
    obtain ⟨q, hp, rfl⟩ := exists_of_map_eq_ok h
    have := ih hp
    have : rest.length < s.length := length_quoted hq
    simp only [List.length_cons]; omega
  | case5 => simp at h
  | case6 => cases h; simp
  | case7 => cases h; simp
  | case8 => cases h; simp
  | case9 _ c p s _ _ _ _ _ ih =>
    obtain ⟨q, hp, rfl⟩ := exists_of_map_eq_ok h
    have := ih hp
    simp only [List.length_cons]; omega

/-- A prelude that does not start with a closing brace takes at least one character. -/
theorem length_prelude_lt {c : Char} {p : Position} {s : Stamped} {r : Prelude}
    (h : prelude 0 ((c, p) :: s) = .ok r) (hc : c ≠ '}') : r.rest.length ≤ s.length := by
  rw [prelude.eq_def] at h
  split at h
  · contradiction
  · rename_i hs
    cases hs
    split at h
    · rename_i rest hr
      have := length_comment hr
      have := length_prelude_le h
      simp_all
      omega
    · simp at h
  · rename_i hs
    cases hs
    repeat' split at h
    · rename_i rest hq
      have := length_quoted hq
      obtain ⟨q, hp, rfl⟩ := exists_of_map_eq_ok h
      have := length_prelude_le hp
      simp_all
      omega
    · simp at h
    · cases h; simp
    · cases h; simp
    · simp_all
    · obtain ⟨q, hp, rfl⟩ := exists_of_map_eq_ok h
      have := length_prelude_le hp
      exact this

/-- A letter, a number, a dash or a low line. -/
def isWordChar (c : Char) : Bool :=
  isAlphanumeric c || c == '-' || c == '_'

/-- The event that a prelude with the given trimmed text makes outside at-rules. -/
def ofPrelude? (s : Text) (ending : Ending) (pos : Position) : Option Event :=
  match s, ending with
  | [], .brace => some (.fault (.missingSelector pos))
  | [], _ => none
  | s, .brace => some (.opens (.rule s) pos)
  | s, _ =>
    match Declaration.ofText? s with
    | some d => some (.node (.declaration d pos))
    | none => some (.fault (.invalidDeclaration s pos))

/-- The event of an at-rule. -/
def ofAtRule (name params : Text) (ending : Ending) (pos : Position) : Event :=
  if ending = .brace then .opens (.block name params) pos else .node (.statement name params pos)

end Event

open Event in
/-- The events of a text. -/
def eventsOf : Stamped → List Event
  | [] => []
  | ('/', p) :: ('*', _) :: s =>
    match _h : comment s with
    | some (text, rest) => .node (.comment text.trim p) :: eventsOf rest
    | none => [.fault (.unterminatedComment p)]
  | (c, p) :: s =>
    if isBlank c then eventsOf s
    else if _hc : c = '}' then .closes p :: eventsOf s
    else if c = '@' then
      match _h : prelude 0 (s.dropWhile (isWordChar ·.1)) with
      | .ok r =>
        let name := (s.takeWhile (isWordChar ·.1)).map (·.1)
        ofAtRule name r.text.trim r.ending p :: eventsOf r.rest
      | .error e => [.fault e]
    else
      match _h : prelude 0 ((c, p) :: s) with
      | .ok r =>
        (ofPrelude? r.text.trim r.ending p).toList ++ eventsOf r.rest
      | .error e => [.fault e]
termination_by s => s.length
decreasing_by
  · have : rest.length < s.length := length_comment _h
    simp only [List.length_cons]
    omega
  · simp
  · simp
  · have := length_prelude_le _h
    have : (s.dropWhile (isWordChar ·.1)).length ≤ s.length :=
      (List.dropWhile_suffix _).length_le
    simp only [List.length_cons]
    omega
  · have := length_prelude_lt _h _hc
    simp only [List.length_cons]
    omega

end ComponentSheet
