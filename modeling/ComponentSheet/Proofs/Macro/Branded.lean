import ComponentSheet.Proofs.Macro.Called
import ComponentSheet.Proofs.Selector.Renamed
import ComponentSheet.Selector.Entries

/-! A selector in the scheme of a component has the entries and the macro calls that it had. -/
namespace ComponentSheet.Macro

open Selector

variable {kinds : List Kind} {b : Bool} {component s : Text} {g : Segment} {t t' : Token}
  {l m : List Segment}

theorem callsIn_renaming (h : t.Renaming component b t') :
    callsIn kinds (.token t') = callsIn kinds (.token t) := by
  cases h with
  | kept => rfl
  | className n => exact (called_letters _).trans (called_letters _).symm
  | idName n => exact (called_letters _).trans (called_letters _).symm
  | host => exact (called_letters _).trans (called_letters _).symm

/-- No call is lost or made where a segment is replaced; the argument of a host is looked at for
calls in its new place, too. -/
theorem callsIn_replaced (kinds : List Kind) (component : Text) (b : Bool) (g : Segment) :
    (replaced component b g).flatMap (callsIn kinds) = callsIn kinds g := by
  rw [replaced]
  split
  · rename_i a ha
    obtain ⟨args, rfl, rfl⟩ := hostArgument?_eq_some.1 ha
    have hclass : callsIn kinds (.token (.className (blockName component))) = [] :=
      called_letters _
    have hargs : callsIn kinds (.token (.pseudoClass "host".toList (some args))) =
        calls kinds args := callsIn_arguments rfl rfl
    rw [List.flatMap_cons, hclass, ← calls_eq_flatMap, calls_trim, hargs, List.nil_append]
  · rename_i ha
    rw [List.flatMap_singleton]
    cases g with
    | blanks => rfl
    | token t => exact callsIn_renaming (t.renaming component (!b) ha)

theorem callsIn_replacedAll (kinds : List Kind) (component : Text) (b : Bool) (l : List Segment) :
    (replacedAll component b l).flatMap (callsIn kinds) = l.flatMap (callsIn kinds) := by
  induction l generalizing b with
  | nil => rfl
  | cons g l ih => rw [replacedAll, List.flatMap_append, callsIn_replaced, ih, List.flatMap_cons]

def occupied (s : Text) : Bool :=
  s.any fun c => !isBlank c

/-- Which of the texts between the commas are more than blanks. -/
def filled (l : List Segment) : List Bool :=
  (pieces l).map occupied

/-- What stands in front of a text is part of what stands in front of its first comma. -/
def extended (here : Bool) : List Bool → List Bool
  | [] => [here]
  | first :: rest => (here || first) :: rest

theorem occupied_iff : occupied s ↔ s.trim ≠ [] := by
  constructor
  · intro h
    obtain ⟨c, hc, hb⟩ := List.any_eq_true.1 h
    exact Text.trim_ne_nil hc (by simpa using hb)
  · intro h
    cases ho : occupied s with
    | true => rfl
    | false =>
      have hs : s.all isBlank :=
        List.all_eq_true.2 fun c hc => by simpa using List.any_eq_false.1 ho c hc
      have ht : (s ++ []).trim = Text.trim [] := Text.trim_append_left hs
      rw [List.append_nil] at ht
      exact absurd ht h

theorem length_entries (s : Text) : (entries s).length = (filled (segments s)).count true := by
  have ht : (fun p : Text => decide (p.trim ≠ [])) = fun p => occupied p == true := by
    funext p
    rw [Bool.eq_iff_iff, decide_eq_true_iff, beq_iff_eq, occupied_iff]
  rw [entries, ← List.countP_eq_length_filter, List.countP_map, filled, List.count,
    List.countP_map, Function.comp_def, Function.comp_def, ht]

theorem filled_cons (h : g ≠ .token .comma) :
    filled (g :: l) = extended (occupied g.text) (filled l) := by
  rw [filled, filled, pieces.eq_3 _ _ h]
  cases pieces l with
  | nil => rfl
  | cons p ps => simp [extended, occupied]

theorem filled_token {t : Token} (h : t ≠ .comma) (ho : occupied t.lexeme) :
    filled (.token t :: l) = extended true (filled l) := by
  rw [filled_cons (by simpa using h), Segment.text, ho]

theorem filled_className (n : Text) :
    filled (.token (.className n) :: l) = extended true (filled l) :=
  filled_token (by simp) rfl

theorem filled_append (hm : .token .comma ∉ m) :
    extended true (filled (m ++ l)) = extended true (filled l) := by
  have hb (b : Bool) (l : List Bool) : extended true (extended b l) = extended true l := by
    cases l <;> rfl
  induction m with
  | nil => rfl
  | cons g m ih =>
    rw [List.mem_cons, not_or] at hm
    rw [List.cons_append, filled_cons (Ne.symm hm.1), hb, ih hm.2]

theorem filled_renaming (h : t.Renaming component b t') (hf : filled m = filled l) :
    filled (.token t' :: m) = filled (.token t :: l) := by
  cases h with
  | kept =>
    by_cases ht : t = .comma
    · rw [ht]
      exact congrArg (false :: ·) hf
    · rw [filled_cons (by simpa using ht), filled_cons (by simpa using ht), hf]
  | className n => rw [filled_className, filled_className, hf]
  | idName n => rw [filled_className, filled_token (by simp) rfl, hf]
  | host => rw [filled_className, filled_token (by simp) rfl, hf]

theorem filled_replacedAll (hc : ∀ p ∈ hosts l, .token .comma ∉ segmentsFrom true p.1) :
    filled (replacedAll component b l) = filled l := by
  induction l generalizing b with
  | nil => rfl
  | cons g l ih =>
    rw [forall_hosts_cons] at hc
    rw [replacedAll, replaced]
    split
    · rename_i a ha
      -- The class fills what stands in front of the next comma, as the host did.
      have ho : filled (g :: l) = extended true (filled l) := by
        obtain ⟨args, rfl, rfl⟩ := hostArgument?_eq_some.1 ha
        exact filled_cons (by simp)
      have hm := filled_append (l := replacedAll component (g.continues b) l) (hc.1 a ha)
      rw [ho, ← ih hc.2, ← hm]
      exact filled_cons (by simp)
    · rename_i ha
      cases g with
      | blanks w =>
        rw [List.singleton_append, Segment.renamed, filled_cons (by simp), filled_cons (by simp),
          ih hc.2]
      | token t => exact filled_renaming (t.renaming component (!b) ha) (ih hc.2)

/-- A selector list has as many entries in the scheme of a component as it had, and shows the same
macro calls in the same order, if the argument of each host can stand behind a class and is no
list. -/
theorem entries_and_calls_branded (hn : Unescaped component)
    (hj : ∀ p ∈ hosts (segments s), Joins p.1 p.2)
    (hc : ∀ p ∈ hosts (segments s), .token .comma ∉ segmentsFrom true p.1) :
    (entries (branded component s)).length = (entries s).length ∧
      calls kinds (branded component s) = calls kinds s := by
  have hs : segments (branded component s) = replacedAll component false (segments s) :=
    segments_branded hn hj
  constructor
  · rw [length_entries, length_entries, hs, filled_replacedAll hc]
  · rw [calls_eq_flatMap kinds false (branded component s), ← segments, hs, callsIn_replacedAll,
      segments, ← calls_eq_flatMap]

theorem entries_and_calls_branded_nested :
    let component := "Button".toList
    let s := "content(a), ,:host( .b:not(state(c)) )>.d, #e attribute(component(f)".toList
    (Unescaped component ∧ (∀ p ∈ hosts (segments s), Joins p.1 p.2) ∧
      ∀ p ∈ hosts (segments s), .token .comma ∉ segmentsFrom true p.1) ∧
    (entries (branded component s)).length = 3 ∧
    calls Kind.all (branded component s) =
      [(.content, some "a".toList), (.state, some "c".toList), (.attr, none)] := by
  intro component s
  have hn : Unescaped component := by decide
  have hj : ∀ p ∈ hosts (segments s), Joins p.1 p.2 := by decide +kernel
  have hc : ∀ p ∈ hosts (segments s), .token .comma ∉ segmentsFrom true p.1 := by decide +kernel
  obtain ⟨he, hk⟩ : (entries (branded component s)).length = (entries s).length ∧
      calls Kind.all (branded component s) = calls Kind.all s :=
    entries_and_calls_branded hn hj hc
  refine ⟨⟨hn, hj, hc⟩, he.trans ?_, hk.trans ?_⟩
  · decide +kernel
  · decide +kernel

/-- The argument of a host can be a list, go on with the name of the class, or end where a call
starts: each alone makes a difference. -/
theorem entries_and_calls_branded_ne :
    let component := "Button".toList
    let listed := ":host(.a, .b)".toList
    let joined := ":host(state(a))".toList
    let called := ":host(.a)state(b)".toList
    Unescaped component ∧
    (entries listed = [listed] ∧
      entries (branded component listed) = [".spectrum-Button.a".toList, ".b".toList]) ∧
    (calls Kind.all joined = [(.state, some "a".toList)] ∧
      branded component joined = ".spectrum-Buttonstate(a)".toList ∧
      calls Kind.all (branded component joined) = []) ∧
    (calls Kind.all called = [(.state, some "b".toList)] ∧
      branded component called = ".spectrum-Button.astate(b)".toList ∧
      calls Kind.all (branded component called) = []) := by
  decide +kernel

end ComponentSheet.Macro
