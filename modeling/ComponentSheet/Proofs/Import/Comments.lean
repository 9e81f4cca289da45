import ComponentSheet.Proofs.Sheet.Insides
import ComponentSheet.Proofs.Text.Lines

/-! The comments of a file, followed line by line. They are those of the stylesheet that the file
is, but for strings that go on behind a line. -/
namespace ComponentSheet

variable {a : Spot} {c quote : Char} {l s t : Text} {i : Inside} {b : Bool} {p q : Position}

open Import (Inside insideAfter commentOpenAfter)

namespace Spot

theorem after_slash (h : s.head? ≠ some '*') :
    (slash.after s).inside = (nothing.after s).inside := by
  cases s with
  | nil => rfl
  | cons c s =>
    have hc : c ≠ '*' := by simpa using h
    simp only [after_cons, next, if_neg hc]

theorem after_star (h : s.head? ≠ some '/') : (star.after s).inside = (comment.after s).inside := by
  cases s with
  | nil => rfl
  | cons c s =>
    have hc : c ≠ '/' := by simpa using h
    simp only [after_cons, next, if_neg hc]

theorem inside_after (hi : i ≠ .string '\\') (s : Text) :
    ((of i).after s).inside = insideAfter i s := by
  have hnothing : Inside.nothing ≠ .string '\\' := by decide
  have hcomment : Inside.comment ≠ .string '\\' := by decide
  fun_induction insideAfter i s with
  | case1 i => exact inside_of i
  | case2 s ih => exact ih hnothing
  | case3 c s hs ih =>
    rw [← ih hi, after_cons, of, next]
    split
    · rename_i hc
      refine after_star fun hh => ?_
      obtain ⟨t, rfl⟩ := List.head?_eq_some_iff.1 hh
      exact hs t hc rfl
    · rfl
  | case4 quote c s ih => exact ih hi
  | case5 quote c s hs ih =>
    have hquote : quote ≠ '\\' := fun hq => hi (by rw [hq])
    by_cases hb : c = '\\'
    · subst hb
      -- A backslash with nothing behind it escapes nothing.
      obtain rfl : s = [] := List.eq_nil_iff_forall_not_mem.2 fun e he => by
        obtain ⟨d, t, rfl⟩ := List.exists_cons_of_ne_nil (List.ne_nil_of_mem he)
        exact hs d t rfl rfl
      rw [if_neg (Ne.symm hquote)]
      rfl
    · rw [after_cons, of, next, if_neg hb]
      split
      · rename_i hc
        rw [if_pos hc] at ih
        rw [← ih hnothing]
        rfl
      · rename_i hc
        rw [if_neg hc] at ih
        rw [← ih hi]
        rfl
  | case6 s ih => exact ih hcomment
  | case7 c s hs ih =>
    rw [after_cons, of, next, opened]
    split
    · rename_i hq
      have hc : Inside.string c ≠ .string '\\' := by
        rcases hq with rfl | rfl <;> decide
      rw [if_pos hq] at ih
      rw [← ih hc]
      rfl
    · rename_i hq
      rw [if_neg hq] at ih
      rw [← ih hnothing]
      split
      · rename_i hc
        refine after_slash fun hh => ?_
        obtain ⟨t, rfl⟩ := List.head?_eq_some_iff.1 hh
        exact hs t hc rfl
      · rfl

theorem inside_opened_ne (c : Char) : (opened c).inside ≠ .comment := by
  grind [opened, inside]

theorem eq_of_next_eq_slash (h : a.next c = slash) : c = '/' := by
  cases a <;> grind [next, opened]

/-- Without a slash and a star in a row no comment is opened. -/
theorem inside_after_ne_comment (h : ¬ ['/', '*'] <:+: s) (ha : a.inside ≠ .comment)
    (hs : a = slash → s.head? ≠ some '*') : (a.after s).inside ≠ .comment := by
  induction s generalizing a with
  | nil => exact ha
  | cons c s ih =>
    have htail : ¬ ['/', '*'] <:+: s := fun hi => h (hi.trans (List.suffix_cons c s).isInfix)
    refine ih htail ?_ ?_
    · cases a with
      | slash =>
        have hc : c ≠ '*' := by simpa using hs rfl
        simp only [next, if_neg hc]
        exact inside_opened_ne c
      | nothing => exact inside_opened_ne c
      | string | escape => grind [next, inside]
      | comment | star => exact absurd rfl ha
    · intro hslash hh
      obtain ⟨t, rfl⟩ := List.head?_eq_some_iff.1 hh
      obtain rfl := eq_of_next_eq_slash hslash
      exact h ⟨[], t, rfl⟩

/-- The end of a line leads neither into a comment nor out of one. -/
theorem inside_next_iff (h : c ≠ '/') (hs : c ≠ '*') :
    (a.next c).inside = .comment ↔ a.inside = .comment := by
  cases a <;> grind [next, opened, inside]

/-- Behind a line feed nothing waits for what is behind it. -/
theorem next_feed (a : Spot) : a.next '\n' = of (a.next '\n').inside := by
  cases a with
  | nothing | slash | comment | star | escape => rfl
  | string quote =>
    rw [next, if_neg (by decide)]
    split <;> rfl

theorem lookup_marks (a : Spot) (p : Position) (c : Char) (s : Text) :
    (a.marks (stamp p (c :: s))).lookup p = some a.inside := by
  simp

theorem line_of_mem_marks (h : (q, i) ∈ a.marks (stamp p (l ++ ['\n']))) (hl : '\n' ∉ l) :
    q.line = p.line := by
  induction l generalizing a p with
  | nil =>
    obtain ⟨rfl, -⟩ : q = p ∧ i = a.inside := by simpa using h
    rfl
  | cons c l ih =>
    rw [List.mem_cons, not_or] at hl
    rw [List.cons_append, stamp_cons, marks_cons, List.mem_cons] at h
    rcases h with h | h
    · rw [(Prod.mk.inj h).1]
    · have hc : c ≠ '\n' := fun hc => hl.1 hc.symm
      rw [ih h hl.2, Position.next, if_neg hc]

end Spot

theorem Position.after_line (hl : '\n' ∉ l) (p : Position) :
    p.after (l ++ ['\n']) = ⟨p.line + 1, 1⟩ := by
  induction l generalizing p with
  | nil => rfl
  | cons c l ih =>
    rw [List.mem_cons, not_or] at hl
    have hc : c ≠ '\n' := fun hc => hl.1 hc.symm
    rw [List.cons_append, Position.after_cons, ih hl.2, Position.next, if_neg hc]

namespace Import

def Inside.isString : Inside → Bool
  | .string _ => true
  | _ => false

/-- Whether a comment is open in front of a line, by the lines in front of it. -/
def commentOpenAt (text : Text) (number : Nat) : Bool :=
  (text.lines.take (number - 1)).foldl commentOpenAfter false

theorem exists_eq_withoutReturn (l : Text) :
    ∃ v, l = l.withoutReturn ++ v ∧
      ∀ a : Spot, (a.after v).inside = .comment ↔ a.inside = .comment := by
  rw [Text.withoutReturn]
  split
  · rename_i h
    obtain ⟨l, rfl⟩ := List.getLast?_eq_some_iff.1 h
    exact ⟨['\r'], by simp, fun a => Spot.inside_next_iff (by decide) (by decide)⟩
  · exact ⟨[], by simp, fun a => Iff.rfl⟩

theorem commentOpenAfter_eq_true_iff (b : Bool) (l : Text) : commentOpenAfter b l = true ↔
    ((Spot.of (if b then .comment else .nothing)).after l).inside = .comment := by
  rw [commentOpenAfter, decide_eq_true_eq, Spot.inside_after]
  split <;> exact Inside.noConfusion

/-- A line that does not start inside a string leads into a comment and out of it as the sheet has
it. One that starts inside a string leads into none, if no comment mark is in it. -/
theorem commentOpenAfter_iff (hb : b = true ↔ i = .comment)
    (hi : i.isString → ¬ ['/', '*'] <:+: l.withoutReturn) :
    commentOpenAfter b l.withoutReturn = true ↔
      ((Spot.of i).after (l ++ ['\n'])).inside = .comment := by
  obtain ⟨v, hv, hreturn⟩ := exists_eq_withoutReturn l
  have hline : ((Spot.of i).after (l ++ ['\n'])).inside = .comment ↔
      ((Spot.of i).after l.withoutReturn).inside = .comment := by
    have hl : (Spot.of i).after l = ((Spot.of i).after l.withoutReturn).after v := by
      rw [← Spot.after_append, ← hv]
    rw [Spot.after_append, Spot.after_cons, Spot.after_nil,
      Spot.inside_next_iff (by decide) (by decide), hl, hreturn]
  rw [hline, commentOpenAfter_eq_true_iff]
  cases i with
  | comment => rw [if_pos (hb.2 rfl)]
  | nothing => rw [if_neg fun h => nomatch hb.1 h]
  | string quote =>
    rw [if_neg fun h => nomatch hb.1 h]
    have hmark := hi rfl
    refine iff_of_false ?_ ?_
    · exact Spot.inside_after_ne_comment hmark Inside.noConfusion Spot.noConfusion
    · exact Spot.inside_after_ne_comment hmark Inside.noConfusion Spot.noConfusion

/-- The first character of a sheet stands inside of what the sheet starts in. -/
theorem lookup_first_iff (hb : b = true ↔ i = .comment) (hs : s ≠ []) (p : Position) :
    b = true ↔ ((Spot.of i).marks (stamp p s)).lookup p = some .comment := by
  obtain ⟨c, s, rfl⟩ := List.exists_cons_of_ne_nil hs
  rw [Spot.lookup_marks, Spot.inside_of, hb, Option.some.injEq]

/-- What the characters behind a line stand inside of is found without the line. -/
theorem lookup_behind_line (hl : '\n' ∉ l) (i : Inside) (s : Text) (m j : Nat) :
    ((Spot.of i).marks (stamp ⟨m, 1⟩ (l ++ '\n' :: s))).lookup ⟨m + 1 + j, 1⟩ =
      ((Spot.of ((Spot.of i).after (l ++ ['\n'])).inside).marks
        (stamp ⟨m + 1, 1⟩ s)).lookup ⟨m + 1 + j, 1⟩ := by
  have hstart : (Spot.of i).after (l ++ ['\n']) =
      Spot.of ((Spot.of i).after (l ++ ['\n'])).inside := by
    simp only [Spot.after_append, Spot.after_cons, Spot.after_nil]
    exact Spot.next_feed _
  have hnone : ((Spot.of i).marks (stamp ⟨m, 1⟩ (l ++ ['\n']))).lookup ⟨m + 1 + j, 1⟩ = none := by
    rw [List.lookup_eq_none_iff]
    rintro ⟨q, i⟩ hq
    have hline : q.line = m := Spot.line_of_mem_marks hq hl
    rw [bne_iff_ne]
    rintro rfl
    simp only at hline
    omega
  have hsplit : l ++ '\n' :: s = (l ++ ['\n']) ++ s := by simp
  rw [hsplit, Spot.marks_stamp, List.lookup_append, hnone, ← hstart, Position.after_line hl]
  rfl

/-- The lines and the sheet agree on where comments are open, if no line that starts inside a string
holds a comment mark. -/
theorem foldl_commentOpenAfter_iff {m k : Nat} (hb : b = true ↔ i = .comment)
    (hk : k < s.lines.length)
    (hs : ∀ j < k, (((Spot.of i).marks (stamp ⟨m, 1⟩ s)).lookup ⟨m + j, 1⟩).any (·.isString) →
      ∀ l ∈ s.lines[j]?, ¬ ['/', '*'] <:+: l) :
    (s.lines.take k).foldl commentOpenAfter b = true ↔
      ((Spot.of i).marks (stamp ⟨m, 1⟩ s)).lookup ⟨m + k, 1⟩ = some .comment := by
  induction s using Text.lines_induction generalizing i b m k with
  | nil => cases hk
  | last l hn hl =>
    rw [Text.lines_last hn hl] at hk ⊢
    obtain rfl : k = 0 := by simpa using hk
    exact lookup_first_iff hb hl _
  | line l s hn ih =>
    have hne : l ++ '\n' :: s ≠ [] := by simp
    rw [Text.lines_line hn] at hk hs ⊢
    cases k with
    | zero => exact lookup_first_iff hb hne _
    | succ k =>
      have hi : i.isString → ¬ ['/', '*'] <:+: l.withoutReturn := by
        intro hi
        refine hs 0 (Nat.succ_pos k) ?_ _ rfl
        obtain ⟨c, t, ht⟩ := List.exists_cons_of_ne_nil hne
        rw [ht, Nat.add_zero, Spot.lookup_marks, Spot.inside_of]
        exact hi
      have hnumber (j : Nat) : m + (j + 1) = m + 1 + j := by omega
      rw [List.take_succ_cons, List.foldl_cons, hnumber, lookup_behind_line hn]
      refine ih (commentOpenAfter_iff hb hi) (Nat.lt_of_succ_lt_succ hk) fun j hj hstring => ?_
      refine hs (j + 1) (Nat.succ_lt_succ hj) ?_
      rwa [hnumber, lookup_behind_line hn]

/-- A comment is open in front of a line, exactly if the reading of the sheet stands inside a
comment there. No line in front of it may start inside a string and hold a comment mark. -/
theorem commentOpenAt_iff {sheet : List Node} {n : Nat} (h : readSheet text = .ok sheet)
    (hn : (numbered? text.lines n).isSome)
    (hs : ∀ m < n, (insideAt? text ⟨m, 1⟩).any (·.isString) →
      ∀ l ∈ numbered? text.lines m, ¬ ['/', '*'] <:+: l) :
    commentOpenAt text n = true ↔ insideAt? text ⟨n, 1⟩ = some .comment := by
  cases n with
  | zero => cases hn
  | succ k =>
    have hk : k < text.lines.length := by simpa [numbered?] using hn
    have hfirst (j : Nat) : insideAt? text ⟨j + 1, 1⟩ =
        ((Spot.of .nothing).marks (stamp ⟨1, 1⟩ text)).lookup ⟨1 + j, 1⟩ := by
      rw [insideAt?_of_readSheet h, Nat.add_comm]
      rfl
    rw [commentOpenAt, Nat.add_sub_cancel, hfirst]
    refine foldl_commentOpenAfter_iff (iff_of_false Bool.noConfusion Inside.noConfusion) hk ?_
    intro j hj hstring
    refine hs (j + 1) (Nat.succ_lt_succ hj) ?_
    rwa [hfirst]

theorem commentOpenAt_iff_continued :
    let text : Text := "@media /* a\r\n*/ print \x7b\n.a::before \x7b content: ".toList ++
      "'it\\'s \\\nnot \\'/'; \x7d\n/* '\n\x7d */ \x7d".toList
    let sheet : List Node := [.block "media".toList "print".toList [
      .rule ".a::before".toList [
        .declaration ⟨"content".toList, "'it\\'s \\\nnot \\'/'".toList, false⟩ ⟨3, 14⟩] ⟨3, 1⟩,
      .comment "'\n\x7d".toList ⟨5, 1⟩] ⟨1, 1⟩]
    (readSheet text = .ok sheet ∧ (numbered? text.lines 6).isSome ∧
      ∀ m < 6, (insideAt? text ⟨m, 1⟩).any (·.isString) →
        ∀ l ∈ numbered? text.lines m, ¬ ['/', '*'] <:+: l) ∧
      (commentOpenAt text 6 = true ↔ insideAt? text ⟨6, 1⟩ = some .comment) ∧
      commentOpenAt text 6 = true := by
  intro text sheet
  have h : readSheet text = .ok sheet := by decide +kernel
  have hn : (numbered? text.lines 6).isSome := by decide +kernel
  have hs : ∀ m < 6, (insideAt? text ⟨m, 1⟩).any (·.isString) →
      ∀ l ∈ numbered? text.lines m, ¬ ['/', '*'] <:+: l := by
    decide +kernel
  exact ⟨⟨h, hn, hs⟩, commentOpenAt_iff h hn hs, by decide +kernel⟩

/-- In a string that goes on behind a line, a comment mark is taken for one, and the quote that ends
the string for one that starts another, so that a comment behind it is missed. -/
theorem commentOpenAt_ne :
    let marked := "a: \"x\\\n/*\";\nb: c".toList
    let quoted := "a: \"x\\\n\" /* \"\n*/".toList
    ((∃ sheet, readSheet marked = .ok sheet) ∧ commentOpenAt marked 3 = true ∧
        insideAt? marked ⟨3, 1⟩ = some .nothing) ∧
      (∃ sheet, readSheet quoted = .ok sheet) ∧ commentOpenAt quoted 3 = false ∧
        insideAt? quoted ⟨3, 1⟩ = some .comment := by
  intro marked quoted
  refine ⟨⟨⟨[.declaration ⟨"a".toList, "\"x\\\n/*\"".toList, false⟩ ⟨1, 1⟩,
    .declaration ⟨"b".toList, "c".toList, false⟩ ⟨3, 1⟩], ?_⟩, ?_, ?_⟩,
    ⟨[.declaration ⟨"a".toList, "\"x\\\n\"".toList, false⟩ ⟨1, 1⟩], ?_⟩, ?_, ?_⟩ <;> decide +kernel

end Import

end ComponentSheet
