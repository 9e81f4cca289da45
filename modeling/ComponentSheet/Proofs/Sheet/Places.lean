import ComponentSheet.Proofs.Sheet.Step
import ComponentSheet.Proofs.Text.Split

/-! Where in a text the events, the nodes and the faults of a stylesheet stand. -/
namespace ComponentSheet

open Event

/-- The entry with a number, counted from one. -/
def numbered? {α : Type} (l : List α) : Nat → Option α
  | 0 => none
  | n + 1 => l[n]?

theorem mem_of_numbered? {α : Type} {l : List α} {a : α} {n : Nat} (h : numbered? l n = some a) :
    a ∈ l := by
  cases n with
  | zero => cases h
  | succ n => exact List.mem_of_getElem? h

/-- The character of a text at a position. Lines end at line feeds. -/
def charAt? (s : Text) (p : Position) : Option Char := do
  let line ← numbered? (Text.splitAt '\n' s) p.line
  numbered? line p.column

variable {c : Char} {s : Text} {p q : Position} {e : ReadError}

/-- In a text that starts at `p`, a character on the first line or on one of the others. -/
theorem line_of_mem_stamp (h : (c, q) ∈ stamp p s) (hc : c ≠ '\n') :
    ∃ l ls, Text.splitAt '\n' s = l :: ls ∧
      ((q.line = p.line ∧ ∃ k, q.column = p.column + k ∧ l[k]? = some c) ∨
        ∃ k line, q.line = p.line + k + 1 ∧ ls[k]? = some line ∧
          numbered? line q.column = some c) := by
  induction s generalizing p with
  | nil => cases h
  | cons d s ih =>
    rw [stamp_cons, List.mem_cons] at h
    rcases h with h | h
    · obtain ⟨rfl, rfl⟩ := Prod.mk.inj h
      obtain ⟨l, ls, -, hs⟩ := Text.exists_splitAt_cons hc s
      exact ⟨c :: l, ls, hs, .inl ⟨rfl, 0, rfl, rfl⟩⟩
    · obtain ⟨l, ls, hl, hi⟩ := ih h
      by_cases hd : d = '\n'
      · subst hd
        refine ⟨[], l :: ls, by rw [Text.splitAt_cons_self, hl], .inr ?_⟩
        rcases hi with ⟨hline, k, hcol, hk⟩ | ⟨k, line, hline, hk, hcol⟩
        · refine ⟨0, l, hline, rfl, ?_⟩
          rw [hcol, Nat.add_comm]
          exact hk
        · refine ⟨k + 1, line, ?_, hk, hcol⟩
          rw [hline]
          simp only [Position.next, if_true]
          omega
      · obtain ⟨l', ls', hl', hs⟩ := Text.exists_splitAt_cons hd s
        obtain ⟨rfl, rfl⟩ := List.cons.inj (hl.symm.trans hl')
        have hnext : p.next d = ⟨p.line, p.column + 1⟩ := if_neg hd
        rw [hnext] at hi
        refine ⟨d :: l, ls, hs, ?_⟩
        rcases hi with ⟨hline, k, hcol, hk⟩ | hi
        · refine .inl ⟨hline, k + 1, ?_, hk⟩
          rw [hcol]
          simp only
          omega
        · exact .inr hi

/-- A text has its characters where they are stamped. -/
theorem charAt?_of_mem_stamp (h : (c, p) ∈ stamp .first s) (hc : c ≠ '\n') :
    charAt? s p = some c := by
  obtain ⟨l, ls, hs, ⟨hline, k, hcol, hk⟩ | ⟨k, line, hline, hk, hcol⟩⟩ := line_of_mem_stamp h hc
  · have hl : numbered? (Text.splitAt '\n' s) p.line = some l := by
      rw [hs, hline]
      rfl
    have hc : numbered? l p.column = some c := by
      rw [hcol, show Position.first.column + k = k + 1 from Nat.add_comm 1 k]
      exact hk
    simp [charAt?, hl, hc]
  · have hl : numbered? (Text.splitAt '\n' s) p.line = some line := by
      rw [hs, hline, show Position.first.line + k + 1 = k + 1 + 1 by rw [Nat.add_comm _ k]; rfl]
      exact hk
    simp [charAt?, hl, hcol]

/-- An event has the position of a character, with which its node starts. -/
def Event.StandsIn (s : Stamped) (ev : Event) : Prop :=
  ∃ c, (c, ev.pos) ∈ s ∧ c ≠ '\n' ∧ ev.Makes fun n => n.pos = ev.pos ∧ n.firstChar? = some c

theorem standsIn_of_mem_eventsOf (s : Stamped) : ∀ ev ∈ eventsOf s, ev.StandsIn s := by
  intro ev hev
  obtain ⟨es, es', h⟩ := List.append_of_mem hev
  obtain ⟨v, rest, hv, hst, -⟩ := exists_standsAt_of_eventsOf h
  obtain ⟨c, v', rfl, hc, -, hmakes⟩ := hst.front
  exact ⟨c, hv.subset List.mem_cons_self, hc, hmakes⟩

theorem exists_mem_of_nodesWithin {css : Text} {sheet : List Node} (h : readSheet css = .ok sheet) :
    ∀ n ∈ nodesWithin sheet, ∃ c, (c, n.pos) ∈ stamp .first css ∧ c ≠ '\n' ∧
      n.firstChar? = some c := by
  refine forall_nodesWithin h (fun ev hev => ?_) (by simp [nodesWithin]) (by simp)
  obtain ⟨c, hm, hc, hmakes⟩ := standsIn_of_mem_eventsOf _ ev hev
  refine hmakes.mono fun n hn => ⟨c, ?_, hc, hn.2⟩
  rwa [hn.1]

theorem exists_mem_of_readSheet_error {css : Text} (h : readSheet css = .error e) :
    ∃ c, (c, e.pos) ∈ stamp .first css ∧ c ≠ '\n' := by
  obtain ⟨ev, hev, hpos⟩ := (refused_of_readSheet h).exists_pos
  obtain ⟨c, hm, hc, -⟩ := standsIn_of_mem_eventsOf _ ev hev
  exact ⟨c, hpos ▸ hm, hc⟩

end ComponentSheet
