/-! Text as a list of characters: blanks, trimming, lines and length in bytes. -/

namespace ComponentSheet

abbrev Text := List Char

/-- The characters with the Unicode property White_Space. -/
def isBlank (c : Char) : Bool :=
  blanks.any fun r => r.1 ≤ c.toNat && c.toNat ≤ r.2
where
  blanks : List (Nat × Nat) :=
    [(0x09, 0x0D), (0x20, 0x20), (0x85, 0x85), (0xA0, 0xA0), (0x1680, 0x1680), (0x2000, 0x200A),
      (0x2028, 0x2029), (0x202F, 0x202F), (0x205F, 0x205F), (0x3000, 0x3000)]

namespace Text

variable {s t : Text}

/-- The length of the text in UTF-8. -/
def byteLength : Text → Nat
  | [] => 0
  | c :: s => c.utf8Size + byteLength s

@[simp] theorem byteLength_append : byteLength (s ++ t) = byteLength s + byteLength t := by
  induction s with
  | nil => simp [byteLength]
  | cons c s ih => simp [byteLength, ih, Nat.add_assoc]

def trimStart (s : Text) : Text :=
  s.dropWhile isBlank

def trimEnd (s : Text) : Text :=
  (s.reverse.dropWhile isBlank).reverse

def trim (s : Text) : Text :=
  trimEnd (trimStart s)

theorem exists_eq_trim (s : Text) :
    ∃ u v : Text, s = u ++ s.trim ++ v ∧ u.all isBlank ∧ v.all isBlank := by
  refine ⟨s.takeWhile isBlank, (s.trimStart.reverse.takeWhile isBlank).reverse, ?_, by simp,
    by simp⟩
  rw [trim, trimEnd, List.append_assoc, ← List.reverse_append, List.takeWhile_append_dropWhile,
    List.reverse_reverse, trimStart, List.takeWhile_append_dropWhile]

/-- The first word of the text, where blanks part words. -/
def firstWord? (s : Text) : Option Text :=
  match (trimStart s).takeWhile (!isBlank ·) with
  | [] => none
  | w => some w

/-- The lines of a text. A line feed ends a line, together with one carriage return in front of
it; what follows the last line feed is a line unless it is empty. -/
def lines : Text → List Text
  | [] => []
  | '\n' :: s => [] :: lines s
  | '\r' :: '\n' :: s => [] :: lines s
  | c :: s =>
    match lines s with
    | [] => [[c]]
    | l :: ls => (c :: l) :: ls

/-- The texts with the separator between each two of them. -/
def join (separator : Text) (parts : List Text) : Text :=
  (parts.intersperse separator).flatten

/-- Puts a character in front of the text that a reading took, if it succeeded. -/
def took {α : Type} (c : Char) (r : Option (Text × α)) : Option (Text × α) :=
  r.map fun p => (c :: p.1, p.2)

@[simp, grind =] theorem took_none {α : Type} {c : Char} :
    took c (none : Option (Text × α)) = none := rfl

@[simp, grind =] theorem took_some {α : Type} {c : Char} {p : Text × α} :
    took c (some p) = some (c :: p.1, p.2) := rfl

theorem took_eq_some_iff {α : Type} {c : Char} {r : Option (Text × α)} {p : Text × α} :
    took c r = some p ↔ ∃ q, r = some q ∧ p = (c :: q.1, q.2) := by
  cases r <;> simp [took, eq_comm]

/-- The text in front of the first `c` and the text behind it. -/
def cutAt? (c : Char) : Text → Option (Text × Text)
  | [] => none
  | d :: s => if d = c then some ([], s) else took d (cutAt? c s)

theorem eq_of_cutAt? {c : Char} {p : Text × Text} (h : cutAt? c s = some p) :
    s = p.1 ++ c :: p.2 := by
  induction s generalizing p with
  | nil => simp [cutAt?] at h
  | cons d s ih =>
    rw [cutAt?] at h
    split at h
    · simp_all
      simp [← h]
    · obtain ⟨q, hq, rfl⟩ := took_eq_some_iff.1 h
      simp [ih hq]

/-- The texts between the occurrences of `c`. -/
def splitAt (c : Char) : Text → List Text
  | [] => [[]]
  | d :: s =>
    if d = c then [] :: splitAt c s
    else
      match splitAt c s with
      | [] => [[d]]
      | t :: ts => (d :: t) :: ts

/-- The text behind `lead`, if it starts with that. -/
def behind? (lead s : Text) : Option Text :=
  if lead.isPrefixOf s then some (s.drop lead.length) else none

/-- The longest prefix of at most `n` bytes and the rest. -/
def splitBytes : Nat → Text → Text × Text
  | _, [] => ([], [])
  | n, c :: s =>
    if c.utf8Size ≤ n then
      let p := splitBytes (n - c.utf8Size) s
      (c :: p.1, p.2)
    else ([], c :: s)

theorem splitBytes_append (n : Nat) (s : Text) :
    (splitBytes n s).1 ++ (splitBytes n s).2 = s := by
  induction s generalizing n with
  | nil => rfl
  | cons c s ih =>
    rw [splitBytes]
    split <;> simp [ih]

/-- Equality up to the case of the ASCII letters. -/
def equalsIgnoringCase (s t : Text) : Bool :=
  s.map Char.toLower == t.map Char.toLower

theorem length_dropWhile_le (p : Char → Bool) (s : Text) : (s.dropWhile p).length ≤ s.length :=
  (List.dropWhile_suffix p).length_le

end Text

end ComponentSheet
