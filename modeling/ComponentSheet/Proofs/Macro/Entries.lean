import ComponentSheet.Component.Hoisting
import ComponentSheet.Proofs.Macro.CallFree
import ComponentSheet.Proofs.Macro.Called
import ComponentSheet.Proofs.Selector.Listed

/-! A selector list has the calls of its entries, so that a list without calls is expanded to its
own entries. -/
namespace ComponentSheet.Macro

open Selector

variable {d : Dialect} {ctx : Context} {kinds : List Kind} {a : Stage} {b : Bool} {p s v y : Text}

theorem calls_uncut (h : Uncut y b p) : calls kinds (p ++ y) = calls kinds p ++ calls kinds y := by
  induction h with
  | nil => rw [calls_nil, List.nil_append, List.nil_append]
  | @cons b g s h hc hs ih =>
    obtain ⟨hf, hv⟩ := h.formed
    -- At the end of the text the segment stops, too.
    have hs : g.Stops s := by
      cases s with
      | nil => exact hv.nil
      | cons c s => exact hv.of_head rfl
    rw [List.append_assoc, calls_segment hf hv, calls_segment hf hs, ih, List.append_assoc]

theorem calls_comma (v : Text) : calls kinds (',' :: v) = calls kinds v := by
  obtain ⟨hf, hv⟩ := (reads_comma false v).formed
  calc calls kinds (',' :: v) = callsIn kinds (.token .comma) ++ calls kinds v :=
        calls_segment hf hv
    _ = calls kinds v := rfl

theorem calls_listed (p : Text) : (listed p).flatMap (calls kinds) = calls kinds p := by
  by_cases hp : p.trim = []
  · rw [listed_nil hp, ← calls_trim, hp, calls_nil]
    rfl
  · rw [listed_trim hp, List.flatMap_singleton, calls_trim]

/-- The calls of a list are those of its entries. -/
theorem calls_entries (kinds : List Kind) (s : Text) :
    (entries s).flatMap (calls kinds) = calls kinds s := by
  obtain ⟨p, y, hs, hp, rfl | ⟨v, rfl⟩⟩ := exists_uncut false s
  · rw [hs, List.append_nil, entries_last hp, calls_listed]
  · have hv : v.length < s.length := by
      rw [hs, List.length_append, List.length_cons]
      omega
    rw [hs, entries_comma hp, List.flatMap_append, calls_listed, calls_entries kinds v,
      calls_uncut hp, calls_comma]
termination_by s.length

theorem containsCall_eq_false_iff_calls : containsCall s = false ↔ calls Kind.all s = [] :=
  containsCall_iff.trans callFree_iff_calls

theorem containsCall_eq_false_iff_entries :
    containsCall s = false ↔ ∀ e ∈ entries s, containsCall e = false := by
  simp only [containsCall_eq_false_iff_calls, ← calls_entries Kind.all s, List.flatMap_eq_nil_iff]

/-- Without calls one pass after the other begins and ends. -/
theorem run_of_callFree (h : CallFree Kind.all s) (passes : List (List Kind)) :
    Run d ctx ⟨passes, s⟩ [] ⟨[], s⟩ := by
  induction passes with
  | nil => exact .refl _
  | cons kinds rest ih => exact .head (.advance (callFree_iff.1 (h.among kinds))) ih

theorem expand_of_callFree (h : CallFree Kind.all s) : expand d ctx s = .ok s := by
  refine expand_eq_of_run (run_of_callFree h d.passes) (.done s) ?_
  exact Nat.mul_pos (Nat.succ_pos _) (Nat.succ_pos _)

theorem mapM_expand_of_callFree {l : List Text} (h : ∀ e ∈ l, CallFree Kind.all e) :
    l.mapM (expand d ctx) = .ok l := by
  induction l with
  | nil => rfl
  | cons e l ih =>
    rw [List.forall_mem_cons] at h
    rw [List.mapM_cons, expand_of_callFree h.1, ih h.2]
    rfl

/-- A selector list holds a call exactly if one of its entries does. If none does, each entry is
expanded to itself, and the text that is kept has the entries that the expansion gives. -/
theorem containsCall_iff_entries (s : Text) :
    (containsCall s ↔ ∃ e ∈ entries s, containsCall e) ∧
      (containsCall s = false → ∀ (d : Dialect) (ctx : Context),
        (∀ e ∈ entries s, expand d ctx e = .ok e) ∧
        (entries s).mapM (expand d ctx) = .ok (entries s) ∧
        Component.expandedSelector d ctx s = .ok s) := by
  refine ⟨?_, fun h d ctx => ?_⟩
  · simpa using not_congr (containsCall_eq_false_iff_entries (s := s))
  · have hfree : ∀ e ∈ entries s, CallFree Kind.all e := fun e he =>
      containsCall_iff.1 (containsCall_eq_false_iff_entries.1 h e he)
    refine ⟨fun e he => expand_of_callFree (hfree e he), mapM_expand_of_callFree hfree, ?_⟩
    rw [Component.expandedSelector, h]
    rfl

/-- An escaped comma, a call in a string, a blank behind a backslash and a function that is open. -/
theorem containsCall_iff_entries_open :
    let s := "a\\, , [x=\",state(\"] ,, b\\ , :is(host(c, d".toList
    let l := ["a\\,".toList, "[x=\",state(\"]".toList, "b\\".toList, ":is(host(c, d".toList]
    containsCall s = false ∧ entries s = l ∧
      ∀ (d : Dialect) (ctx : Context), l.mapM (expand d ctx) = .ok l ∧
        Component.expandedSelector d ctx s = .ok s := by
  intro s l
  have hc : containsCall s = false := by decide +kernel
  have hl : entries s = l := by decide +kernel
  refine ⟨hc, hl, fun d ctx => ?_⟩
  obtain ⟨-, hm, hs⟩ := (containsCall_iff_entries s).2 hc d ctx
  exact ⟨hl ▸ hm, hs⟩

end ComponentSheet.Macro
