import ComponentSheet.Proofs.Component.Removed

/-! What an error does to the rest of an expansion that goes on: nothing. The sheet without the
nodes that have errors is expanded to the same nodes with the same warnings. -/
namespace ComponentSheet.Component

open Macro

theorem problem?_withChildren (d : Dialect) (scope : Scope) (n : Node) (l : List Node) :
    scope.problem? d (n.withChildren l) = scope.problem? d n := by
  cases scope <;> cases n <;> rfl

theorem withChildren_withChildren (n : Node) (l m : List Node) :
    (n.withChildren l).withChildren m = n.withChildren m := by
  cases n <;> rfl

theorem rewritten_withChildren (d : Dialect) (scope : Scope) (n : Node) (l : List Node) :
    scope.rewritten d (n.withChildren l) = (scope.rewritten d n).withChildren l := by
  cases scope with
  | outside => rfl
  | inside component parent =>
    cases n with
    | rule selector children pos =>
      simp only [Scope.rewritten, Node.withChildren]
      cases expandedSelector d ⟨component, parent⟩ (ownSelector d component selector) <;> rfl
    | block | statement | declaration | comment => rfl

theorem parentBelow_withChildren (parent : Option Text) (n : Node) (l : List Node) :
    Scope.parentBelow parent (n.withChildren l) = Scope.parentBelow parent n := by
  cases n <;> rfl

theorem below_withChildren (d : Dialect) (scope : Scope) (n : Node) (l : List Node) :
    scope.below d (n.withChildren l) = scope.below d n := by
  cases scope with
  | outside => cases n <;> rfl
  | inside component parent =>
    simp only [Scope.below, rewritten_withChildren, parentBelow_withChildren]

theorem placed_withChildren (d : Dialect) (scope : Scope) (n : Node) (l : List Node) :
    scope.placed d (n.withChildren l) = scope.placed d n := by
  funext inner
  rw [Scope.placed, Scope.placed, opensNamed_withChildren, rewritten_withChildren,
    withChildren_withChildren]

theorem children_without (d : Dialect) (p : Problem → Bool) (scope : Scope) (n : Node) :
    (n.withChildren (without d p scope n.children)).children = without d p scope n.children := by
  cases n with
  | rule | block => rfl
  | statement | declaration | comment =>
    simp [Node.withChildren, Node.children, without]

/-- The problems that are errors. -/
def Problem.isError (problem : Problem) : Bool :=
  problem.severity = .error

theorem isError_iff_cause (problem : Problem) :
    problem.isError ↔ ∃ cause, problem.cause? = some cause := by
  cases problem <;> simp [Problem.isError, Problem.severity, Problem.cause?]

theorem report_leaveOut (x : Diagnostic) : report .leaveOut x = .done {} [x] := by
  rw [report]
  split <;> rfl

theorem report_warning {x : Diagnostic} (h : x.problem.isError = false) (policy : Policy) :
    report policy x = .done {} [x] := by
  have hc : x.problem.cause? = none := by
    apply Option.eq_none_iff_forall_ne_some.2
    intro cause hc
    have he : x.problem.isError := (isError_iff_cause _).2 ⟨cause, hc⟩
    rw [h] at he
    cases he
  rw [report, hc]
  rfl

theorem walk_without_errors (d : Dialect) (scope : Scope) (l : List Node) :
    ∃ h log, walk ⟨d, .leaveOut⟩ scope l = .done h log ∧
      walk ⟨d, .abort⟩ scope (without d Problem.isError scope l) =
        .done h (log.filter (!·.problem.isError)) := by
  generalize hp : Problem.isError = p
  fun_induction without d p scope l with
  | case1 scope => exact ⟨{}, [], walk_nil _ _, walk_nil _ _⟩
  | case2 scope n l problem hn he ih =>
    -- Only the first run meets the node, and all that it adds is the error.
    obtain ⟨h, log, hc, ha⟩ := ih
    refine ⟨h, ⟨problem, n.pos⟩ :: log, ?_, ?_⟩
    · apply walk_cons_eq_done.2
      refine ⟨{}, h, [⟨problem, n.pos⟩], log, ?_, hc, rfl, rfl⟩
      rw [step_of_problem hn, report_leaveOut]
    · rwa [List.filter_cons_of_neg (by simpa [hp] using he)]
  | case3 scope n l problem hn he ih =>
    obtain ⟨h, log, hc, ha⟩ := ih
    subst hp
    have hs : ∀ policy inner, scope.step ⟨d, policy⟩ n inner = .done {} [⟨problem, n.pos⟩] := by
      intro policy inner
      rw [step_of_problem hn, report_warning (by simpa using he)]
    refine ⟨h, ⟨problem, n.pos⟩ :: log, ?_, ?_⟩
    · exact walk_cons_eq_done.2 ⟨{}, h, [⟨problem, n.pos⟩], log, hs _ _, hc, rfl, rfl⟩
    · rw [List.filter_cons_of_pos (by simpa using he)]
      exact walk_cons_eq_done.2 ⟨{}, h, [⟨problem, n.pos⟩], _, hs _ _, ha, rfl, rfl⟩
  | case4 scope n l hn ihChildren ih =>
    obtain ⟨inner, within, hci, hai⟩ := ihChildren
    obtain ⟨h, log, hc, ha⟩ := ih
    subst hp
    refine ⟨(scope.placed d n inner).append h, within ++ log, ?_, ?_⟩
    · apply walk_cons_eq_done.2
      refine ⟨_, h, within, log, ?_, hc, rfl, rfl⟩
      rw [step_of_none hn, hci, Outcome.map_done]
    · -- Without some of its children the node is placed as before, and they stand where they did.
      rw [List.filter_append]
      apply walk_cons_eq_done.2
      refine ⟨_, h, _, _, ?_, ha, rfl, rfl⟩
      rw [below_withChildren, children_without, hai,
        step_of_none ((problem?_withChildren _ _ _ _).trans hn), placed_withChildren,
        Outcome.map_done]

/-- What has an error in a sheet. -/
def faults (d : Dialect) (sheet : List Node) : List Finding :=
  (findings d .outside sheet).filter (·.problem.isError)

/-- The sheet without that. -/
def faultless (d : Dialect) (sheet : List Node) : List Node :=
  without d Problem.isError .outside sheet

/-- An expansion that goes on at errors succeeds, and leaves nothing but the nodes with errors out
of account: without them the sheet can be expanded by one that stops at errors, with the same result
and the same warnings. -/
theorem expandSheet_faultless (d : Dialect) (sheet : List Node) :
    ∃ result log,
      expandSheet ⟨d, .leaveOut⟩ sheet = .done result log ∧
        Pruned sheet (faultless d sheet) ((faults d sheet).map Finding.node) ∧
        log.filter (·.severity = .error) = (faults d sheet).map Finding.diagnostic ∧
        expandSheet ⟨d, .abort⟩ (faultless d sheet) =
          .done result (log.filter (·.severity = .warning)) := by
  obtain ⟨h, log, hc, ha⟩ := walk_without_errors d .outside sheet
  have hw : ∀ x : Diagnostic, (!x.problem.isError) = decide (x.severity = .warning) := by
    rintro ⟨problem, pos⟩
    cases problem <;> rfl
  simp only [hw] at ha
  refine ⟨h.nodes, log, ?_, pruned_without d Problem.isError .outside sheet, ?_, ?_⟩
  · rw [expandSheet_eq_walk, hc, Outcome.map_done]
  · have hl := log_of_walk hc
    rw [hl, List.filter_map, faults]
    rfl
  · rw [expandSheet_eq_walk, faultless, ha, Outcome.map_done]

end ComponentSheet.Component
