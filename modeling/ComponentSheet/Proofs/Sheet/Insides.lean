import ComponentSheet.Import.Line
import ComponentSheet.Proofs.Sheet.Nodes
import ComponentSheet.Proofs.Sheet.Places

/-! What the reading of a stylesheet stands inside of, character by character. -/
namespace ComponentSheet

open Event
open Import (Inside insideAfter)

/-- The characters of a text in front of what is left of it, all inside the same. -/
def Event.within (i : Inside) (s rest : Stamped) : List (Position × Inside) :=
  (s.take (s.length - rest.length)).map fun x => (x.2, i)

/-- The characters of a prelude, each with what it stands inside of when reading comes to it. -/
def Event.insidesOfPrelude (depth : Nat) : Stamped → List (Position × Inside)
  | [] => []
  | ('/', p) :: ('*', q) :: s =>
    match _hc : comment s with
    | some (_, rest) =>
      (p, .nothing) :: (q, .nothing) :: within .comment s rest ++ insidesOfPrelude depth rest
    | none => []
  | (c, p) :: s =>
    if c = '"' ∨ c = '\'' then
      match _hq : quoted c s with
      | some (_, rest) =>
        (p, .nothing) :: within (.string c) s rest ++ insidesOfPrelude depth rest
      | none => []
    else if depth = 0 ∧ (c = ';' ∨ c = '{') then [(p, .nothing)]
    else if depth = 0 ∧ c = '}' then []
    else (p, .nothing) :: insidesOfPrelude (depthAfter c depth) s
termination_by s => s.length
decreasing_by
  · have : rest.length < s.length := length_comment _hc
    simp only [List.length_cons]
    omega
  · have : rest.length < s.length := length_quoted _hq
    simp only [List.length_cons]
    omega
  · simp

/-- The characters of a sheet up to its first fault, each with what it stands inside of when reading
comes to it. -/
def insidesOf : Stamped → List (Position × Inside)
  | [] => []
  | ('/', p) :: ('*', q) :: s =>
    match _h : comment s with
    | some (_, rest) => (p, .nothing) :: (q, .nothing) :: within .comment s rest ++ insidesOf rest
    | none => []
  | (c, p) :: s =>
    if isBlank c then (p, .nothing) :: insidesOf s
    else if _hc : c = '}' then (p, .nothing) :: insidesOf s
    else if c = '@' then
      match _h : prelude 0 (s.dropWhile (isWordChar ·.1)) with
      | .ok r =>
        (p, .nothing) :: within .nothing s (s.dropWhile (isWordChar ·.1)) ++
          insidesOfPrelude 0 (s.dropWhile (isWordChar ·.1)) ++ insidesOf r.rest
      | .error _ => []
    else
      match _h : prelude 0 ((c, p) :: s) with
      | .ok r => insidesOfPrelude 0 ((c, p) :: s) ++ insidesOf r.rest
      | .error _ => []
termination_by s => s.length
decreasing_by
  · have : rest.length < s.length := length_comment _h
    simp only [List.length_cons]
    omega
  · simp
  · simp
  · have := length_prelude_le _h
    have : (s.dropWhile (isWordChar ·.1)).length ≤ s.length :=
      (List.dropWhile_suffix _).length_le
    simp only [List.length_cons]
    omega
  · have := length_prelude_lt _h _hc
    simp only [List.length_cons]
    omega

/-- What the reading of a sheet stands inside of in front of the character at a position. -/
def insideAt? (s : Text) (p : Position) : Option Inside :=
  (insidesOf (stamp .first s)).lookup p

/-- Where a text has come to, if only its comments and strings count. -/
inductive Spot where
  | nothing
  /-- Behind a slash, which opens a comment together with a star. -/
  | slash
  | comment
  /-- Behind a star, which ends the comment together with a slash. -/
  | star
  | string (quote : Char)
  | escape (quote : Char)
deriving DecidableEq

namespace Spot

def opened (c : Char) : Spot :=
  if c = '"' ∨ c = '\'' then string c else if c = '/' then slash else nothing

def next : Spot → Char → Spot
  | nothing, c => opened c
  | slash, c => if c = '*' then comment else opened c
  | comment, c => if c = '*' then star else comment
  | star, c => if c = '/' then nothing else if c = '*' then star else comment
  | string quote, c =>
    if c = '\\' then escape quote else if c = quote then nothing else string quote
  | escape quote, _ => string quote

def after (a : Spot) (s : Text) : Spot :=
  s.foldl next a

def inside : Spot → Inside
  | nothing | slash => .nothing
  | comment | star => .comment
  | string quote | escape quote => .string quote

def of : Inside → Spot
  | .nothing => nothing
  | .comment => comment
  | .string quote => string quote

/-- The characters of a text, each with what it stands inside of. -/
def marks (a : Spot) : Stamped → List (Position × Inside)
  | [] => []
  | (c, p) :: s => (p, a.inside) :: marks (a.next c) s

variable {a : Spot} {c quote : Char} {s t rest : Stamped} {u v : Text} {p : Position} {i : Inside}
  {d : Nat} {r : Prelude} {body : Text}

@[simp] theorem after_nil : a.after [] = a := rfl

@[simp] theorem after_cons : a.after (c :: u) = (a.next c).after u := rfl

theorem after_append : a.after (u ++ v) = (a.after u).after v :=
  List.foldl_append

@[simp] theorem inside_of (i : Inside) : (of i).inside = i := by
  cases i <;> rfl

@[simp] theorem marks_nil : marks a [] = [] := rfl

@[simp] theorem marks_cons : marks a ((c, p) :: s) = (p, a.inside) :: marks (a.next c) s := rfl

theorem marks_stamp (a : Spot) (p : Position) (u v : Text) :
    marks a (stamp p (u ++ v)) =
      marks a (stamp p u) ++ marks (a.after u) (stamp (p.after u) v) := by
  induction u generalizing a p with
  | nil => rfl
  | cons c u ih => simp [ih]

/-- A slash counts only in front of a star. -/
theorem marks_slash (h : (s.map (·.1)).head? ≠ some '*') : marks slash s = marks nothing s := by
  cases s with
  | nil => rfl
  | cons x s =>
    have hx : x.1 ≠ '*' := by simpa using h
    simp only [marks, next, inside, if_neg hx]

/-- A star in a comment counts only in front of a slash. -/
theorem marks_star (h : (s.map (·.1)).head? ≠ some '/') : marks star s = marks comment s := by
  cases s with
  | nil => rfl
  | cons x s =>
    have hx : x.1 ≠ '/' := by simpa using h
    simp only [marks, next, inside, if_neg hx]

theorem within_append (i : Inside) (s rest : Stamped) :
    within i (s ++ rest) rest = s.map fun x => (x.2, i) := by
  simp [within]

theorem within_self (i : Inside) (s : Stamped) : within i s s = [] :=
  within_append i [] s

theorem within_cons (h : rest <:+ s) (i : Inside) (c : Char) (p : Position) :
    within i ((c, p) :: s) rest = (p, i) :: within i s rest := by
  obtain ⟨u, rfl⟩ := h
  rw [within_append, ← List.cons_append, within_append, List.map_cons]

theorem exists_of_head (h : (s.map (·.1)).head? = some c) : ∃ q t, s = (c, q) :: t := by
  cases s with
  | nil => cases h
  | cons x s =>
    have hx : x.1 = c := by simpa using h
    exact ⟨x.2, s, by rw [← hx]⟩

theorem marks_comment (h : Event.comment s = some (body, rest)) :
    marks comment s = within .comment s rest ++ marks nothing rest := by
  fun_induction Event.comment s generalizing body with
  | case1 => cases h
  | case2 p q s =>
    cases h
    rw [within_cons (List.suffix_cons _ _), within_cons List.suffix_rfl, within_self]
    rfl
  | case3 c p s hs ih =>
    obtain ⟨x, hx, hr⟩ := Text.took_eq_some_iff.1 h
    obtain ⟨-, rfl⟩ := Prod.mk.inj hr
    rw [within_cons (suffix_of_comment hx), List.cons_append, ← ih hx, marks_cons]
    by_cases hc : c = '*'
    · subst hc
      have hhead : (s.map (·.1)).head? ≠ some '/' := by
        intro hh
        obtain ⟨q, t, ht⟩ := exists_of_head hh
        exact hs q t ht rfl
      simp only [next, if_true, marks_star hhead, inside]
    · simp only [next, if_neg hc, inside]

theorem marks_quoted (hq : quote ≠ '\\') (h : quoted quote s = some (body, rest)) :
    marks (string quote) s = within (.string quote) s rest ++ marks nothing rest := by
  fun_induction quoted quote s generalizing body with
  | case1 => cases h
  | case2 p c q s ih =>
    obtain ⟨x, hx, hr⟩ := Text.took_eq_some_iff.1 h
    obtain ⟨-, rfl⟩ := Prod.mk.inj hr
    obtain ⟨y, hy, rfl⟩ := Text.took_eq_some_iff.1 hx
    have hsuffix : y.2 <:+ s := suffix_of_quoted hy
    rw [within_cons (hsuffix.trans (List.suffix_cons _ _)), within_cons hsuffix, List.cons_append,
      List.cons_append, ← ih hy]
    rfl
  | case3 p s =>
    cases h
    rw [within_cons List.suffix_rfl, within_self, marks_cons, next, if_neg hq, if_pos rfl]
    rfl
  | case4 => cases h
  | case5 c p s hs hc hl ih =>
    obtain ⟨x, hx, hr⟩ := Text.took_eq_some_iff.1 h
    obtain ⟨-, rfl⟩ := Prod.mk.inj hr
    have hb : c ≠ '\\' := by
      rintro rfl
      cases s with
      | nil => cases hx
      | cons e s => exact hs e.1 e.2 s rfl rfl
    rw [within_cons (suffix_of_quoted hx), List.cons_append, ← ih hx, marks_cons, next, if_neg hb,
      if_neg hc]
    rfl

/-- A character that opens nothing with what is behind it. -/
theorem marks_plain (hq : ¬ (c = '"' ∨ c = '\'')) (hs : c = '/' → (s.map (·.1)).head? ≠ some '*')
    (p : Position) : marks nothing ((c, p) :: s) = (p, .nothing) :: marks nothing s := by
  rw [marks_cons, next, opened, if_neg hq]
  split
  · rename_i hc
    rw [marks_slash (hs hc)]
    rfl
  · rfl

theorem marks_quote (hq : c = '"' ∨ c = '\'') (p : Position) (s : Stamped) :
    marks nothing ((c, p) :: s) = (p, .nothing) :: marks (string c) s := by
  rw [marks_cons, next, opened, if_pos hq]
  rfl

theorem head_ne_star (hs : ∀ q t, s = ('*', q) :: t → c = '/' → False) (hc : c = '/') :
    (s.map (·.1)).head? ≠ some '*' := by
  intro hh
  obtain ⟨q, t, ht⟩ := exists_of_head hh
  exact hs q t ht hc

theorem marks_prelude (h : prelude d s = .ok r) :
    marks nothing s = insidesOfPrelude d s ++ marks nothing r.rest := by
  fun_induction prelude d s generalizing r with
  | case1 =>
    cases h
    simp [insidesOfPrelude]
  | case2 d p q s text rest hc ih =>
    have hmarks : marks nothing (('/', p) :: ('*', q) :: s) =
        (p, .nothing) :: (q, .nothing) :: marks comment s := rfl
    rw [hmarks, marks_comment hc, ih h, insidesOfPrelude]
    split
    · rename_i hc'
      cases hc.symm.trans hc'
      simp
    · rename_i hc'
      cases hc.symm.trans hc'
  | case3 => cases h
  | case4 d c p s hs hq text rest hr ih =>
    obtain ⟨r', hr', rfl⟩ := exists_of_map_eq_ok h
    have hb : c ≠ '\\' := by rcases hq with rfl | rfl <;> decide
    rw [marks_quote hq, marks_quoted hb hr, ih hr', insidesOfPrelude, if_pos hq]
    · split
      · rename_i hr''
        cases hr.symm.trans hr''
        simp
      · rename_i hr''
        cases hr.symm.trans hr''
    · exact hs
  | case5 => cases h
  | case6 d c p s hs hq hsemi =>
    cases h
    rw [marks_plain hq (head_ne_star hs), insidesOfPrelude, if_neg hq,
      if_pos ⟨hsemi.1, .inl hsemi.2⟩]
    · rfl
    · exact hs
  | case7 d c p s hs hq hsemi hopen =>
    cases h
    rw [marks_plain hq (head_ne_star hs), insidesOfPrelude, if_neg hq,
      if_pos ⟨hopen.1, .inr hopen.2⟩]
    · rfl
    · exact hs
  | case8 d c p s hs hq hsemi hopen hclose =>
    cases h
    rw [insidesOfPrelude, if_neg hq, if_neg, if_pos hclose]
    · rfl
    · grind
    · exact hs
  | case9 d c p s hs hq hsemi hopen hclose ih =>
    obtain ⟨r', hr', rfl⟩ := exists_of_map_eq_ok h
    rw [marks_plain hq (head_ne_star hs), ih hr', insidesOfPrelude, if_neg hq, if_neg,
      if_neg hclose]
    · rfl
    · grind
    · exact hs

theorem ne_of_isWordChar (h : isWordChar c) : c ≠ '/' ∧ ¬ (c = '"' ∨ c = '\'') := by
  refine ⟨?_, ?_⟩
  · rintro rfl
    exact absurd h (by decide +kernel)
  · rintro (rfl | rfl) <;> exact absurd h (by decide +kernel)

theorem marks_dropWhile (s : Stamped) :
    marks nothing s = within .nothing s (s.dropWhile (isWordChar ·.1)) ++
      marks nothing (s.dropWhile (isWordChar ·.1)) := by
  induction s with
  | nil => rfl
  | cons x s ih =>
    obtain ⟨c, p⟩ := x
    rw [List.dropWhile_cons]
    split
    · rename_i hw
      obtain ⟨hslash, hq⟩ := ne_of_isWordChar hw
      rw [within_cons (List.dropWhile_suffix _), List.cons_append, ← ih,
        marks_plain hq fun hc => absurd hc hslash]
    · rw [within_self, List.nil_append]

end Spot

open Spot in
/-- A sheet without faults is read to its end, and what its characters stand inside of does not
depend on its braces and brackets. -/
theorem insidesOf_eq_marks (s : Stamped) (h : ∀ e, .fault e ∉ eventsOf s) :
    insidesOf s = marks nothing s := by
  fun_induction eventsOf s with
  | case1 => rw [insidesOf, marks]
  | case2 p q s text rest hc ih =>
    have hmarks : marks nothing (('/', p) :: ('*', q) :: s) =
        (p, .nothing) :: (q, .nothing) :: marks comment s := rfl
    rw [hmarks, marks_comment hc, insidesOf, ← ih fun e he => h e (List.mem_cons_of_mem _ he)]
    split
    · rename_i hc'
      cases hc.symm.trans hc'
      simp
    · rename_i hc'
      cases hc.symm.trans hc'
  | case3 p q s hc => exact absurd List.mem_cons_self (h _)
  | case4 c p s hs hb ih =>
    have hq : ¬ (c = '"' ∨ c = '\'') := by
      rintro (rfl | rfl) <;> exact absurd hb (by decide)
    rw [insidesOf, if_pos hb, ih h, marks_plain hq (head_ne_star hs)]
    exact hs
  | case5 p s hs hb ih =>
    rw [insidesOf, if_neg hb, dif_pos rfl, ih fun e he => h e (List.mem_cons_of_mem _ he),
      marks_plain (by decide) (head_ne_star hs)]
    exact hs
  | case6 p s r hr name hs hb hc ih =>
    rw [insidesOf, if_neg hb, dif_neg hc, if_pos rfl, marks_plain (by decide) (head_ne_star hs),
      marks_dropWhile, marks_prelude hr, ← ih fun e he => h e (List.mem_cons_of_mem _ he)]
    · split
      · rename_i hr'
        cases hr.symm.trans hr'
        simp
      · rename_i hr'
        cases hr.symm.trans hr'
    · exact hs
  | case7 p s e hr hs hb hc => exact absurd List.mem_cons_self (h _)
  | case8 c p s hs hb hc ha r hr ih =>
    rw [insidesOf, if_neg hb, dif_neg hc, if_neg ha, marks_prelude hr,
      ← ih fun e he => h e (List.mem_append_right _ he)]
    · split
      · rename_i hr'
        cases hr.symm.trans hr'
        rfl
      · rename_i hr'
        cases hr.symm.trans hr'
    · exact hs
  | case9 c p s hs hb hc ha e hr => exact absurd List.mem_cons_self (h _)

theorem faultless_of_nodesOfEvents {frames : List Frame} {nodes sheet : List Node} {es : List Event}
    (h : nodesOfEvents frames nodes es = .ok sheet) : ∀ e, .fault e ∉ es := by
  intro e
  fun_induction nodesOfEvents frames nodes es with
  | case1 => exact List.not_mem_nil
  | case2 => cases h
  | case3 frames nodes opening pos es ih => simpa using ih h
  | case4 => cases h
  | case5 f frames nodes pos es ih => simpa using ih h
  | case6 frames nodes n es ih => simpa using ih h
  | case7 => cases h

/-- What a sheet that is read has in front of a character, found one character at a time. -/
theorem insideAt?_of_readSheet {text : Text} {sheet : List Node} (h : readSheet text = .ok sheet)
    (p : Position) : insideAt? text p = (Spot.nothing.marks (stamp .first text)).lookup p := by
  rw [insideAt?, insidesOf_eq_marks _ (faultless_of_nodesOfEvents h)]

end ComponentSheet
