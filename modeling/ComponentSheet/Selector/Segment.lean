import ComponentSheet.Selector.Token

/-! Selector text cut into tokens and the blanks between them. Nothing is lost: the texts of the
segments, one after the other, are the text that was cut. -/

namespace ComponentSheet.Selector

inductive Segment where
  | blanks (text : Text)
  | token (t : Token)
deriving DecidableEq, Repr

def Segment.text : Segment → Text
  | .blanks text => text
  | .token t => t.lexeme

/-- Whether the text behind a segment continues a compound, given whether the segment does. -/
def Segment.continues (inCompound : Bool) : Segment → Bool
  | .blanks _ => inCompound
  | .token t => t.isSimple

/-- A letter or digit of ASCII, one of `-`, `_` and `\`, or any character beyond ASCII. -/
def isNameChar (c : Char) : Bool :=
  c.isAlphanum || c == '-' || c == '_' || c == '\\' || 128 ≤ c.toNat

namespace Reading

open Text

variable {s : Text}

/-- The longest name at the front of the text, and the rest. A backslash takes the character
behind it into the name, whatever it is. -/
def name : Text → Text × Text
  | [] => ([], [])
  | '\\' :: c :: s => ('\\' :: c :: (name s).1, (name s).2)
  | c :: s => if isNameChar c then (c :: (name s).1, (name s).2) else ([], c :: s)

theorem name_append (s : Text) : (name s).1 ++ (name s).2 = s := by
  fun_induction name s <;> simp_all

/-- The text up to the bracket that closes a group, and the rest behind that bracket, for text
inside the group at the given depth of further brackets of the same kind, inside a string if
`quote` is its quote. -/
def group (opening closing : Char) : Nat → Option Char → Text → Option (Text × Text)
  | _, _, [] => none
  | depth, some q, '\\' :: c :: s => took '\\' (took c (group opening closing depth (some q) s))
  | depth, some q, c :: s =>
    took c (group opening closing depth (if c = q then none else some q) s)
  | depth, none, c :: s =>
    if c = '"' ∨ c = '\'' then took c (group opening closing depth (some c) s)
    else if c = opening then took c (group opening closing (depth + 1) none s)
    else if c = closing then
      match depth with
      | 0 => some ([], s)
      | depth + 1 => took c (group opening closing depth none s)
    else took c (group opening closing depth none s)

theorem eq_of_group {o cl : Char} {d : Nat} {q : Option Char} {p : Text × Text}
    (h : group o cl d q s = some p) : s = p.1 ++ cl :: p.2 := by
  fun_induction group o cl d q s generalizing p
  case case1 => simp at h
  case case6 => cases h; simp
  all_goals grind [took_eq_some_iff]

def parenthesized (s : Text) : Option (Text × Text) :=
  group '(' ')' 0 none s

def bracketed (s : Text) : Option (Text × Text) :=
  group '[' ']' 0 none s

/-- The token for a pseudo-class or pseudo-element that opens with `colons`, made by `pseudo` from
its name and arguments. Without a closing parenthesis all the text is raw. -/
def pseudo (colons : Text) (pseudo : Text → Option Text → Token) (s : Text) : Token × Text :=
  match name s with
  | (n, '(' :: r) =>
    match parenthesized r with
    | some (args, rest) => (pseudo n (some args), rest)
    | none => (.raw (colons ++ s), [])
  | (n, r) => (pseudo n none, r)

/-- The token for text that starts with a name. -/
def named (s : Text) : Token × Text :=
  match name s with
  | (n, '(' :: r) =>
    match parenthesized r with
    | some (args, rest) => (.function n args, rest)
    | none => (.openFunction n r, [])
  | (n, r) => (.typeName n, r)

/-- The token for a combinator behind its sign. -/
def sign (kind : Combinator) (s : Text) : Token × Text :=
  (.combinator kind (s.takeWhile isBlank), s.dropWhile isBlank)

/-- The token at the front of the text `c :: s`, for a `c` that is not blank, and the rest. -/
def token (c : Char) (s : Text) : Token × Text :=
  if c = '>' then sign .child s
  else if c = '+' then sign .nextSibling s
  else if c = '~' then sign .subsequentSibling s
  else if c = ',' then (.comma, s)
  else if c = '*' then (.universal, s)
  else if c = '&' then (.nesting, s)
  else if c = '.' ∧ s.head?.any isNameChar then (.className (name s).1, (name s).2)
  else if c = '#' ∧ s.head?.any isNameChar then (.idName (name s).1, (name s).2)
  else if c = '[' then
    match bracketed s with
    | some (body, rest) => (.attr body, rest)
    | none => (.raw (c :: s), [])
  else if c = ':' then
    match s with
    | ':' :: s => pseudo [':', ':'] .pseudoElement s
    | s => pseudo [':'] .pseudoClass s
  else if isNameChar c then named (c :: s)
  else (.raw [c], s)

/-- Whether blanks in front of this text may stand for a descendant combinator. -/
def startsCompound : Text → Bool
  | [] => false
  | c :: _ => c ≠ ',' && c ≠ '>' && c ≠ '+' && c ≠ '~'

/-- The segment at the front of the text `c :: s` and the rest. Blanks behind a simple selector
and in front of another one are a combinator; all other blanks are no token. -/
def segment (inCompound : Bool) (c : Char) (s : Text) : Segment × Text :=
  if isBlank c then
    let blanks := c :: s.takeWhile isBlank
    let rest := s.dropWhile isBlank
    if inCompound && startsCompound rest then (.token (.combinator .descendant blanks), rest)
    else (.blanks blanks, rest)
  else (.token (token c s).1, (token c s).2)

theorem name_ne_nil {c : Char} (h : isNameChar c) (s : Text) : (name (c :: s)).1 ≠ [] := by
  rw [name.eq_def]
  split <;> simp_all

section

variable {colons : Text} {mk : Text → Option Text → Token}

theorem pseudo_append (h : ∀ n a, (mk n a).lexeme = colons ++ Token.applied n a) (s : Text) :
    (pseudo colons mk s).1.lexeme ++ (pseudo colons mk s).2 = colons ++ s := by
  have hn := name_append s
  simp only [pseudo]
  split
  · rename_i n r hr
    rw [hr] at hn
    split
    · rename_i a rest ha
      simp [h, Token.applied, ← hn, eq_of_group ha]
    · simp
  · rename_i n r hr
    simp_all [Token.applied]

theorem pseudo_ne_nil (h : ∀ n a, (mk n a).lexeme = colons ++ Token.applied n a)
    (hc : colons ≠ []) (s : Text) : (pseudo colons mk s).1.lexeme ≠ [] := by
  simp only [pseudo]
  repeat' split
  all_goals simp [h, hc]

end

theorem named_append (s : Text) : (named s).1.lexeme ++ (named s).2 = s := by
  have hn := name_append s
  simp only [named]
  split
  · rename_i n r hr
    rw [hr] at hn
    split
    · rename_i a rest ha
      simp [Token.applied, ← hn, eq_of_group ha]
    · simp [← hn]
  · rename_i n r hr
    simp_all

theorem named_ne_nil {c : Char} (h : isNameChar c) (s : Text) : (named (c :: s)).1.lexeme ≠ [] := by
  have hn := name_ne_nil h s
  simp only [named]
  repeat' split
  all_goals simp_all [Token.applied]

theorem sign_append (kind : Combinator) (s : Text) :
    (sign kind s).1.lexeme ++ (sign kind s).2 = kind.sign ++ s := by
  simp [sign]

/-- The text of a token and the text behind it are the text that was read. -/
theorem token_append (c : Char) (s : Text) : (token c s).1.lexeme ++ (token c s).2 = c :: s := by
  fun_cases token c s
  case case1 h => subst h; exact sign_append .child s
  case case2 h => subst h; exact sign_append .nextSibling s
  case case3 h => subst h; exact sign_append .subsequentSibling s
  case case9 h _ _ _ _ hg => subst h; simp [eq_of_group hg]
  case case11 h _ _ _ => subst h; exact pseudo_append (fun _ _ => by rfl) _
  case case12 h _ _ _ => subst h; exact pseudo_append (fun _ _ => by rfl) _
  case case13 => exact named_append _
  all_goals simp [name_append, *]

theorem token_ne_nil (c : Char) (s : Text) : (token c s).1.lexeme ≠ [] := by
  fun_cases token c s
  case case11 => exact pseudo_ne_nil (fun _ _ => by rfl) (by simp) _
  case case12 => exact pseudo_ne_nil (fun _ _ => by rfl) (by simp) _
  case case13 h _ _ => exact named_ne_nil h s
  all_goals simp [sign, Combinator.sign]

theorem segment_append (inCompound : Bool) (c : Char) (s : Text) :
    (segment inCompound c s).1.text ++ (segment inCompound c s).2 = c :: s := by
  simp only [segment]
  repeat' split
  all_goals simp [Segment.text, Combinator.sign, token_append]

theorem segment_ne_nil (inCompound : Bool) (c : Char) (s : Text) :
    (segment inCompound c s).1.text ≠ [] := by
  simp only [segment]
  repeat' split
  all_goals simp [Segment.text, Combinator.sign, token_ne_nil]

theorem length_segment_lt (inCompound : Bool) (c : Char) (s : Text) :
    (segment inCompound c s).2.length < (c :: s).length := by
  have h := congrArg List.length (segment_append inCompound c s)
  have hp := List.length_pos_iff.2 (segment_ne_nil inCompound c s)
  simp only [List.length_append] at h
  omega

end Reading

/-- The segments of a text that goes on inside a compound or not. -/
def segmentsFrom (inCompound : Bool) : Text → List Segment
  | [] => []
  | c :: s =>
    let r := Reading.segment inCompound c s
    r.1 :: segmentsFrom (r.1.continues inCompound) r.2
termination_by s => s.length
decreasing_by exact Reading.length_segment_lt _ _ _

def segments (s : Text) : List Segment :=
  segmentsFrom false s

/-- The text that was cut into the segments. -/
def textOf (l : List Segment) : Text :=
  l.flatMap Segment.text

theorem textOf_cons (g : Segment) (l : List Segment) : textOf (g :: l) = g.text ++ textOf l := rfl

theorem textOf_append (l m : List Segment) : textOf (l ++ m) = textOf l ++ textOf m :=
  List.flatMap_append

theorem textOf_segmentsFrom (inCompound : Bool) (s : Text) :
    textOf (segmentsFrom inCompound s) = s := by
  fun_induction segmentsFrom inCompound s with
  | case1 => rfl
  | case2 b c s r ih =>
    rw [textOf_cons, ih]
    exact Reading.segment_append b c s

theorem textOf_segments (s : Text) : textOf (segments s) = s :=
  textOf_segmentsFrom false s

end ComponentSheet.Selector
