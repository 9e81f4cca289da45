import ComponentSheet.Import.Found
import ComponentSheet.Import.Merged
import ComponentSheet.Proofs.Component.Reported
import ComponentSheet.Proofs.Sheet.Places

/-! Every position that is reported of a merged text leads back to its place in a file. -/
namespace ComponentSheet.Import

open Component

variable {files : Files} {file path entry : Path} {visited free : List Path} {text : Text}
  {n number : Nat} {openBefore : Bool} {ls : List Text} {lines : List Line} {r : Progress}
  {m : Merged} {p : Position} {c : Char} {l : Origin}

/-- A line of the file that a path leads to, as it is read. -/
def Files.line? (files : Files) (path : Path) (number : Nat) : Option Text := do
  let canonical ← files.resolve path
  let content ← files.read canonical
  numbered? content.lines number

/-- The origin of a line is the line of its file that has its number. -/
structure Origin.Genuine (files : Files) (l : Origin) : Prop where
  line : files.line? l.file l.number = some l.text
  one : '\n' ∉ l.text

theorem mem_of_plain_mem_linesFrom (h : .plain number text ∈ linesFrom n openBefore ls) :
    ∃ k, number = n + k ∧ ls[k]? = some text := by
  induction ls generalizing n openBefore with
  | nil => cases h
  | cons l ls ih =>
    rw [linesFrom, List.mem_cons] at h
    rcases h with h | h
    · split at h
      · cases h
      · cases h
        exact ⟨0, rfl, rfl⟩
    · obtain ⟨k, hk, hl⟩ := ih h
      exact ⟨k + 1, by omega, hl⟩

theorem numbered?_of_mem_fileLines {content : Text} (h : .plain number text ∈ fileLines content) :
    numbered? content.lines number = some text := by
  obtain ⟨k, rfl, hk⟩ := mem_of_plain_mem_linesFrom h
  rwa [Nat.add_comm]

theorem genuine_of_mem_fileLines {canonical content : Text}
    (hr : files.resolve file = some canonical) (hc : files.read canonical = some content)
    (h : .plain number text ∈ fileLines content) : Origin.Genuine files ⟨text, file, number⟩ := by
  have hl := numbered?_of_mem_fileLines h
  refine ⟨by simp [Files.line?, hr, hc, hl], ?_⟩
  exact Text.notMem_of_mem_lines content text (mem_of_numbered? hl)

theorem exists_of_bind_eq_ok {α β ε : Type} {x : Except ε α} {f : α → Except ε β} {b : β}
    (h : (x >>= f) = .ok b) : ∃ a, x = .ok a ∧ f a = .ok b := by
  cases x with
  | error => cases h
  | ok a => exact ⟨a, rfl, h⟩

/-- If the imports give genuine lines, so does the file that they are put in. -/
theorem genuine_of_inlined {load : List Path → Path → Except LoadError Progress}
    (hload : ∀ v p r, load v p = .ok r → ∀ l ∈ r.2, l.Genuine files)
    (hlines : ∀ number text, .plain number text ∈ lines → Origin.Genuine files ⟨text, file, number⟩)
    (h : inlined load file visited lines = .ok r) : ∀ l ∈ r.2, l.Genuine files := by
  induction lines generalizing visited r with
  | nil =>
    cases h
    simp
  | cons line lines ih =>
    have htail : ∀ number text, .plain number text ∈ lines →
        Origin.Genuine files ⟨text, file, number⟩ :=
      fun number text hm => hlines number text (List.mem_cons_of_mem _ hm)
    cases line with
    | plain number text =>
      rw [inlined] at h
      obtain ⟨rest, hrest, h⟩ := exists_of_bind_eq_ok h
      cases h
      rw [List.forall_mem_cons]
      exact ⟨hlines number text List.mem_cons_self, ih htail hrest⟩
    | imported path =>
      rw [inlined] at h
      obtain ⟨first, hfirst, h⟩ := exists_of_bind_eq_ok h
      obtain ⟨rest, hrest, h⟩ := exists_of_bind_eq_ok h
      cases h
      rw [List.forall_mem_append]
      exact ⟨hload _ _ _ hfirst, ih htail hrest⟩

theorem genuine_of_load (h : load files free visited path = .ok r) :
    ∀ l ∈ r.2, l.Genuine files := by
  -- What is imported is loaded with one file less that is free.
  induction hn : free.length using Nat.strongRecOn generalizing free visited path r with
  | ind n ih =>
    rw [load] at h
    split at h
    · cases h
    · rename_i canonical hresolve
      split at h
      · rename_i hfree
        split at h
        · cases h
          simp
        · split at h
          · cases h
          · rename_i content hread
            have hlt : (without canonical free).length < n := hn ▸ length_without_lt hfree
            refine genuine_of_inlined (fun v p r hr => ?_)
              (fun number text hm => genuine_of_mem_fileLines hresolve hread hm) h
            exact ih _ hlt hr rfl
      · cases h

theorem genuine_of_merge (h : merge files entry = .ok m) : ∀ l ∈ m, l.Genuine files := by
  obtain ⟨r, hr, rfl⟩ := Event.exists_of_map_eq_ok h
  exact genuine_of_load hr

theorem splitAt_text (h : ∀ l ∈ m, '\n' ∉ l.text) :
    Text.splitAt '\n' m.text = m.map (·.text) ++ [[]] := by
  induction m with
  | nil => rfl
  | cons l m ih =>
    rw [List.forall_mem_cons] at h
    have htext : Merged.text (l :: m) = l.text ++ '\n' :: Merged.text m := by
      simp [Merged.text]
    rw [htext, Text.splitAt_append, Text.splitAt_of_not_mem h.1, ih h.2, List.map_cons,
      List.singleton_append, List.cons_append]

/-- A character of the merged text is one of a line that was put in. -/
theorem exists_origin (h : ∀ l ∈ m, '\n' ∉ l.text) (hc : charAt? m.text p = some c) :
    ∃ l, numbered? m p.line = some l ∧ numbered? l.text p.column = some c := by
  rw [charAt?, splitAt_text h] at hc
  obtain ⟨line, hline, hcol⟩ := Option.bind_eq_some_iff.1 hc
  generalize p.line = n at hline ⊢
  cases n with
  | zero => cases hline
  | succ n =>
    rw [numbered?, List.getElem?_append, List.length_map] at hline
    split at hline
    · rw [List.getElem?_map, Option.map_eq_some_iff] at hline
      obtain ⟨l, hl, rfl⟩ := hline
      exact ⟨l, hl, hcol⟩
    · -- Behind the last line feed there is nothing.
      obtain rfl := List.mem_singleton.1 (List.mem_of_getElem? hline)
      cases hp : p.column <;> simp [numbered?, hp] at hcol

theorem locate?_eq (hl : numbered? m p.line = some l) :
    m.locate? p = some (l.file, ⟨l.number, p.column⟩) := by
  rw [Merged.locate?]
  cases hp : p.line with
  | zero =>
    rw [hp] at hl
    cases hl
  | succ n =>
    rw [hp, numbered?] at hl
    simp [hl]

/-- The positions that are reported of a text: of its nodes, of the fault it is refused for, and of
the diagnostics of its expansions. -/
inductive Reported (s : Text) : Position → Prop
  | node {sheet : List Node} {n : Node} (h : readSheet s = .ok sheet) (hn : n ∈ nodesWithin sheet) :
      Reported s n.pos
  | fault {e : ReadError} (h : readSheet s = .error e) : Reported s e.pos
  | diagnostic {sheet : List Node} {o : Options} {d : Diagnostic} (h : readSheet s = .ok sheet)
      (hd : d ∈ (expandSheet o sheet).diagnostics) : Reported s d.pos

theorem Reported.exists_mem {s : Text} (h : Reported s p) :
    ∃ c, (c, p) ∈ stamp .first s ∧ c ≠ '\n' := by
  cases h with
  | node h hn =>
    obtain ⟨c, hm, hc, -⟩ := exists_mem_of_nodesWithin h _ hn
    exact ⟨c, hm, hc⟩
  | fault h => exact exists_mem_of_readSheet_error h
  | diagnostic h hd =>
    obtain ⟨n, hn, hp⟩ := exists_node_of_diagnostic hd
    obtain ⟨c, hm, hc, -⟩ := exists_mem_of_nodesWithin h n hn
    exact ⟨c, hp ▸ hm, hc⟩

/-- A reported position is found in a line of one of the files, in the same column, with the
character that the merged text has there. A node starts with that character. -/
theorem locate?_of_reported (h : merge files entry = .ok m) (hp : Reported m.text p) :
    ∃ file q line c, m.locate? p = some (file, q) ∧ q.column = p.column ∧
      files.line? file q.line = some line ∧ numbered? line q.column = some c ∧
      charAt? m.text p = some c ∧
      ∀ sheet, readSheet m.text = .ok sheet → ∀ n ∈ nodesWithin sheet, n.pos = p →
        n.firstChar? = some c := by
  obtain ⟨c, hm, hc⟩ := hp.exists_mem
  have hchar := charAt?_of_mem_stamp hm hc
  have hgenuine := genuine_of_merge h
  obtain ⟨l, hl, hcol⟩ := exists_origin (fun l hl => (hgenuine l hl).one) hchar
  have hmem : l ∈ m := mem_of_numbered? hl
  refine ⟨l.file, ⟨l.number, p.column⟩, l.text, c, locate?_eq hl, rfl, (hgenuine l hmem).line, hcol,
    hchar, fun sheet hsheet n hn hpos => ?_⟩
  obtain ⟨e, he, hne, hfirst⟩ := exists_mem_of_nodesWithin hsheet n hn
  rw [hpos] at he
  have hsame := (charAt?_of_mem_stamp he hne).symm.trans hchar
  rw [hfirst, hsame]

theorem locate?_of_reported_nameless :
    let main := "main.css".toList
    let part := "parts/a.css".toList
    let files := Files.ofFound [
      ⟨main, "/main.css".toList, some "@import \"parts/a.css\";\r\n@component \x7b\x7d\r\n".toList⟩,
      ⟨part, "/parts/a.css".toList, some "/* x\r\ny */ .a\x7b\x7d".toList⟩]
    let m : Merged := [⟨"/* x".toList, part, 1⟩, ⟨"y */ .a\x7b\x7d".toList, part, 2⟩,
      ⟨"@component \x7b\x7d".toList, main, 2⟩]
    (merge files main = .ok m ∧ Reported m.text ⟨3, 1⟩) ∧
      m.locate? ⟨3, 1⟩ = some (main, ⟨2, 1⟩) ∧ ∃ line c, files.line? main 2 = some line ∧
        numbered? line 1 = some c ∧ charAt? m.text ⟨3, 1⟩ = some c := by
  intro main part files m
  let sheet : List Node := [.comment "x\ny".toList ⟨1, 1⟩, .rule ".a".toList [] ⟨2, 6⟩,
    .block "component".toList [] [] ⟨3, 1⟩]
  have hm : merge files main = .ok m := by decide +kernel
  have hread : readSheet m.text = .ok sheet := by decide +kernel
  have hd : ⟨.missingName, ⟨3, 1⟩⟩ ∈ (expandSheet ⟨.flat, .abort⟩ sheet).diagnostics := by
    decide +kernel
  have hp : Reported m.text ⟨3, 1⟩ := .diagnostic hread hd
  obtain ⟨file, q, line, c, hl, -, hline, hc, hchar, -⟩ := locate?_of_reported hm hp
  have hplace : m.locate? ⟨3, 1⟩ = some (main, ⟨2, 1⟩) := by decide
  obtain ⟨rfl, rfl⟩ := Prod.mk.inj (Option.some.inj (hl.symm.trans hplace))
  exact ⟨⟨hm, hp⟩, hplace, line, c, hline, hc, hchar⟩

end ComponentSheet.Import
