import ComponentSheet.Import.Line
import ComponentSheet.Proofs.Sheet.Read
import Mathlib.Data.Option.Basic

/-! The lines that are taken for imports, as a stylesheet reads them. -/
namespace ComponentSheet

open Event

variable {c : Char} {s body : Text} {quote : Quote} {d : Nat} {p q : Place} {pos : Position}

/-- Whether a text between two quotes is one string: such a quote or a line feed stands in it only
behind a backslash, and its last backslash does not escape the closing quote. -/
def Quote.encloses (quote : Quote) : Text → Bool
  | [] => true
  | ['\\'] => false
  | '\\' :: _ :: s => quote.encloses s
  | c :: s => c ≠ quote.char && c ≠ '\n' && quote.encloses s

/-- Behind an opening quote, the body and a closing one are read as the rest of one string. -/
def Quote.ReadsWhole (quote : Quote) (body : Text) (pos : Position) : Prop :=
  quoted quote.char (stamp pos (body ++ [quote.char])) = some (body ++ [quote.char], [])

theorem took_cons_iff {α : Type} {r : Option (Text × α)} {x : α} :
    Text.took c r = some (c :: s, x) ↔ r = some (s, x) := by
  cases r <;> simp [Text.took, Prod.ext_iff]

theorem quoted_cons {s : Stamped} (hc : c ≠ '\\') (quote : Char) :
    quoted quote ((c, pos) :: s) =
      if c = quote then some ([c], s)
      else if c = '\n' then none
      else Text.took c (quoted quote s) := by
  rw [quoted]
  rintro _ _ _ _ rfl
  exact absurd rfl hc

/-- Where a backslash is followed by another character, the two are taken together. -/
theorem ne_backslash_of_unescaped (h1 : c = '\\' → s = [] → False)
    (h2 : ∀ e t, c = '\\' → s = e :: t → False) : c ≠ '\\' := by
  intro hc
  cases s with
  | nil => exact h1 hc rfl
  | cons e s => exact h2 e s hc rfl

theorem Quote.readsWhole_iff : quote.ReadsWhole body pos ↔ quote.encloses body := by
  have hq := quote.char_ne_backslash
  fun_induction Quote.encloses quote body generalizing pos with
  | case1 => simp [ReadsWhole, quoted_cons hq]
  | case2 => simp [ReadsWhole, quoted]
  | case3 c s ih =>
    simp only [ReadsWhole, List.cons_append, stamp_cons, quoted, took_cons_iff]
    exact ih
  | case4 c s h1 h2 ih =>
    have hc : c ≠ '\\' := ne_backslash_of_unescaped h1 h2
    simp only [ReadsWhole, List.cons_append, stamp_cons, quoted_cons hc, Bool.and_eq_true,
      decide_eq_true_eq]
    by_cases hquote : c = quote.char
    · simp [hquote]
    by_cases hfeed : c = '\n'
    · simp [hfeed]
    simp only [hquote, hfeed, if_false, took_cons_iff, ne_eq, not_false_iff, true_and]
    exact ih

/-- Inside a string and behind a backslash no comment opens. -/
theorem Passes.cons (hp : p.isOutside = false) (h : Passes (p.next c) s q) : Passes p (c :: s) q :=
  ⟨h.after, by simp [Place.opensComment, hp, h.quiet]⟩

theorem Quote.passes_of_encloses (h : quote.encloses body) (d : Nat) :
    Passes (.string quote d) body (.string quote d) := by
  fun_induction Quote.encloses quote body with
  | case1 => exact .nil _
  | case2 => cases h
  | case3 c s ih => exact .cons rfl (.cons rfl (ih h))
  | case4 c s h1 h2 ih =>
    have hc : c ≠ '\\' := ne_backslash_of_unescaped h1 h2
    simp only [Bool.and_eq_true, decide_eq_true_eq] at h
    obtain ⟨⟨hquote, hfeed⟩, hs⟩ := h
    have hnext : (Place.string quote d).next c = .string quote d := by
      simp only [Place.next, hc, hquote, hfeed, if_false]
    refine .cons rfl ?_
    rw [hnext]
    exact ih hs

/-- A string with its quotes. -/
def Quote.around (quote : Quote) (body : Text) : Text :=
  quote.char :: body ++ [quote.char]

theorem Quote.trim_around (quote : Quote) (body : Text) :
    (quote.around body).trim = quote.around body := by
  refine Text.trim_eq_self_iff.2 ⟨fun c hc => ?_, fun c hc => ?_⟩
  · obtain rfl : quote.char = c := by simpa [around] using hc
    exact quote.isBlank_char
  · obtain rfl : quote.char = c := by
      simpa only [around, List.getLast?_concat, Option.mem_some_iff] using hc
    exact quote.isBlank_char

theorem Quote.passes_around (h : quote.encloses body) (d : Nat) :
    Passes (.outside d) (quote.around body) (.outside d) := by
  have hclose : Passes (.string quote d) [quote.char] (.outside d) := by
    refine .cons rfl ?_
    have hnext : (Place.string quote d).next quote.char = .outside d := by
      simp only [Place.next, quote.char_ne_backslash, if_false, if_true]
    rw [hnext]
    exact .nil _
  have hopen : Passes (.outside d) [quote.char] (.string quote d) :=
    ⟨Place.next_quote d quote, by cases quote <;> rfl⟩
  have hstar : quote.char ≠ '*' := by cases quote <;> decide
  have hslash : quote.char ≠ '/' := by cases quote <;> decide
  refine hopen.append ((Quote.passes_of_encloses h d).append hclose ?_) ?_
  · exact .inr (by simpa using hstar)
  · exact .inl (by simpa using hslash)

/-- No letter and no number is blank. -/
theorem isWordChar_of_isBlank (h : isBlank c) : isWordChar c = false := by
  have hdisjoint : isBlank.blanks.all fun b => Alphanumeric.ranges.all fun r =>
      b.2 < r.1 || r.2 < b.1 := by
    decide +kernel
  have halpha : isAlphanumeric c = false := by
    rw [Bool.eq_false_iff]
    intro hc
    rw [isAlphanumeric, List.any_eq_true] at hc
    rw [isBlank, List.any_eq_true] at h
    obtain ⟨r, hr, hcr⟩ := hc
    obtain ⟨b, hb, hcb⟩ := h
    have hbr := List.all_eq_true.1 (List.all_eq_true.1 hdisjoint b hb) r hr
    simp only [Bool.and_eq_true, Bool.or_eq_true, decide_eq_true_eq] at hcr hcb hbr
    omega
  simp [isWordChar, halpha, ne_of_isBlank (e := '-') h (by decide),
    ne_of_isBlank (e := '_') h (by decide)]

namespace Import

variable {line : Text} {path : Path}

/-- A line imports a path: the path stands between two equal quotes, and nothing but blanks around
it, the word in front of it and the semicolon behind it. -/
inductive Writes (quote : Quote) (path : Path) : Text → Prop
  | intro {u v w x : Text} (hu : u.all isBlank) (hv : v.all isBlank) (hw : w.all isBlank)
      (hx : x.all isBlank) :
      Writes quote path (u ++ ("@import".toList ++ (v ++ (quote.around path ++ (w ++ ';' :: x)))))

theorem eq_of_behind? {lead s r : Text} (h : Text.behind? lead s = some r) : s = lead ++ r := by
  rw [Text.behind?] at h
  split at h
  · rename_i hp
    obtain ⟨t, rfl⟩ := List.isPrefixOf_iff_prefix.1 hp
    cases h
    rw [List.drop_left]
  · cases h

theorem exists_around {literal : Text} {c : Char}
    (hc : c = '"' ∨ c = '\'') (hl : literal.getLast? = some c) :
    ∃ quote : Quote, c :: literal = quote.around literal.dropLast := by
  obtain ⟨quote, hquote⟩ := Option.ne_none_iff_exists'.1
    (fun hn => Quote.ofChar?_eq_none_iff.1 hn hc)
  obtain rfl := Quote.ofChar?_eq_some_iff.1 hquote
  obtain ⟨l, rfl⟩ := List.getLast?_eq_some_iff.1 hl
  exact ⟨quote, by simp [Quote.around]⟩

theorem exists_writes (h : target? line = some path) : ∃ quote, Writes quote path line := by
  simp only [target?, Option.bind_eq_bind, Option.bind_eq_some_iff, Option.guard_eq_some'] at h
  obtain ⟨rest, hrest, _, hlast, h⟩ := h
  obtain ⟨r, hr⟩ := List.getLast?_eq_some_iff.1 hlast
  rw [hr, List.dropLast_concat] at h
  split at h
  · cases h
  · rename_i c literal hliteral
    obtain ⟨_, hquotes, h⟩ := Option.bind_eq_some_iff.1 h
    obtain ⟨hc, hend⟩ := (Option.guard_eq_some' _).1 hquotes
    obtain ⟨quote, hquote⟩ := exists_around hc hend
    obtain ⟨u, x, hline, hu, hx⟩ := Text.exists_eq_trim line
    obtain ⟨v, hv, hvb⟩ := Text.exists_eq_trimStart rest
    obtain ⟨v', w, hw, hvb', hwb⟩ := Text.exists_eq_trim r
    cases h
    refine ⟨quote, ?_⟩
    have hlead := eq_of_behind? hrest
    rw [hline, hlead, hv, hr, hw, hliteral, hquote]
    have hvv : (v ++ v').all isBlank := by simp [hvb, hvb']
    have hwrites : Writes quote literal.dropLast _ := .intro hu hvv hwb hx
    simpa only [List.append_assoc, List.cons_append, List.nil_append] using hwrites

theorem exists_readSheet_of_writes (h : Writes quote path line) (hq : quote.encloses path) :
    ∃ pos, readSheet line = .ok [.statement "import".toList (quote.around path) pos] := by
  obtain ⟨hu, hv, hw, hx⟩ := h
  rename_i u v w x
  have htrim : (v ++ (quote.around path ++ w)).trim = quote.around path := by
    rw [Text.trim_append_left hv, Text.trim_append_right hw, quote.trim_around]
  have hpass : Passes (.outside 0) (v ++ (quote.around path ++ w)) (.outside 0) := by
    rw [← passes_trim_iff, htrim]
    exact Quote.passes_around hq 0
  have hall : "import".toList.all isWordChar = true := by decide +kernel
  have hname := List.all_eq_true.1 hall
  have hhead : ∀ c ∈ (v ++ (quote.around path ++ w)).head?, isWordChar c = false := by
    intro c hc
    cases v with
    | nil =>
      obtain rfl : quote.char = c := by simpa [Quote.around] using hc
      cases quote <;> decide +kernel
    | cons e v =>
      obtain rfl : e = c := by simpa using hc
      rw [List.all_cons, Bool.and_eq_true] at hv
      exact isWordChar_of_isBlank hv.1
  have hmark : Ending.semicolon.mark? = some ';' := rfl
  obtain ⟨pos', hevents⟩ :=
    exists_eventsOf_atRule hmark hname hpass hhead (Position.first.after u) x
  have hrest : eventsOf (stamp pos' x) = [] := by
    rw [← List.append_nil x, eventsOf_blanks hx, stamp_nil, eventsOf_nil]
  rw [hrest, htrim] at hevents
  refine ⟨Position.first.after u, ?_⟩
  have hsheet : eventsOf (stamp .first (u ++ ("@import".toList ++ (v ++ (quote.around path ++
      (w ++ ';' :: x)))))) =
      [.node (.statement "import".toList (quote.around path) (Position.first.after u))] := by
    rw [eventsOf_blanks hu]
    simpa [ofAtRule] using hevents
  rw [readSheet, hsheet]
  simp [nodesOfEvents]

/-- A line that is taken for an import is read as one import of one string, exactly if the first
quote that no backslash escapes is the closing one. -/
theorem readSheet_of_target?_iff (h : target? line = some path) :
    ∃ quote, Writes quote path line ∧
      (((∃ pos, readSheet line = .ok [.statement "import".toList (quote.around path) pos]) ∧
          ∀ pos, quote.ReadsWhole path pos) ↔ quote.encloses path) := by
  obtain ⟨quote, hw⟩ := exists_writes h
  refine ⟨quote, hw, fun hread => Quote.readsWhole_iff.1 (hread.2 .first), fun hq => ?_⟩
  exact ⟨exists_readSheet_of_writes hw hq, fun _ => Quote.readsWhole_iff.2 hq⟩

theorem readSheet_of_target?_iff_escaped :
    let line := " @import 'it\\'s \"a\".css' ;\t".toList
    let path := "it\\'s \"a\".css".toList
    target? line = some path ∧ ∃ quote, Writes quote path line ∧
      (((∃ pos, readSheet line = .ok [.statement "import".toList (quote.around path) pos]) ∧
          ∀ pos, quote.ReadsWhole path pos) ↔ quote.encloses path) := by
  intro line path
  have h : target? line = some path := by decide
  exact ⟨h, readSheet_of_target?_iff h⟩

/-- Two imports on one line, two strings behind one import, and a string that its line leaves open
are taken for an import of one path. -/
theorem readSheet_of_target?_ne :
    let twice := "@import \"a\"; @import \"b\";".toList
    let pair := "@import \"a\" \"b\";".toList
    let open_ := "@import \"a\\\";".toList
    (target? twice = some "a\"; @import \"b".toList ∧
        readSheet twice = .ok [.statement "import".toList "\"a\"".toList ⟨1, 1⟩,
          .statement "import".toList "\"b\"".toList ⟨1, 14⟩]) ∧
      (target? pair = some "a\" \"b".toList ∧
        readSheet pair = .ok [.statement "import".toList "\"a\" \"b\"".toList ⟨1, 1⟩] ∧
        ¬ Quote.double.ReadsWhole "a\" \"b".toList .first) ∧
      target? open_ = some "a\\".toList ∧
        readSheet open_ = .error (.unterminatedString ⟨1, 9⟩) := by
  intro twice pair open_
  refine ⟨⟨by decide, by decide +kernel⟩, ⟨by decide, by decide +kernel, ?_⟩, by decide,
    by decide +kernel⟩
  rw [Quote.readsWhole_iff]
  decide

end Import

end ComponentSheet
