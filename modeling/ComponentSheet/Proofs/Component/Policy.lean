import ComponentSheet.Component.Hoisting
import ComponentSheet.Proofs.Macro.Termination

/-! An expansion that stops at the first error has done, up to there, what one that leaves errors
out does. -/
namespace ComponentSheet.Component

open Macro

variable {α β : Type} {d : Dialect} {ctx : Context} {component s params : Text}
  {parent : Option Text} {pos : Position} {e : Failure}

/-- The problems that an expansion is given up for with a cause. -/
inductive Cause.For : Cause → Problem → Prop
  | selector (k : Kind) (s : Text) : For .selector (.failedMacro (.missingParameter k) s)
  | nesting (inner outer : Text) : For .nesting (.nestedComponent inner outer)

theorem Cause.For.severity {c : Cause} {p : Problem} (h : c.For p) : p.severity = .error := by
  cases h <;> rfl

theorem Cause.For.selector_iff {c : Cause} {p : Problem} (h : c.For p) :
    c = .selector ↔ ∃ k s, p = .failedMacro (.missingParameter k) s := by
  cases h <;> simp

theorem Cause.For.nesting_iff {c : Cause} {p : Problem} (h : c.For p) :
    c = .nesting ↔ ∃ inner outer, p = .nestedComponent inner outer := by
  cases h <;> simp

def ErrorFree (log : List Diagnostic) : Prop :=
  ∀ d ∈ log, d.severity ≠ .error

theorem errorFree_nil : ErrorFree [] :=
  nofun

theorem ErrorFree.append {l m : List Diagnostic} (hl : ErrorFree l) (hm : ErrorFree m) :
    ErrorFree (l ++ m) :=
  List.forall_mem_append.2 ⟨hl, hm⟩

/-- The second outcome is what the first one is up to its first error. -/
inductive Stops : Outcome α → Outcome α → Prop
  | done {a : α} {log : List Diagnostic} (h : ErrorFree log) : Stops (.done a log) (.done a log)
  | aborted {a : α} {before rest : List Diagnostic} {fatal : Diagnostic} {cause : Cause}
      (h : ErrorFree before) (hc : cause.For fatal.problem) :
      Stops (.done a (before ++ fatal :: rest)) (.aborted cause before fatal)

theorem stops_pure (a : α) : Stops (pure a) (pure a) :=
  .done errorFree_nil

theorem stops_record {x : Diagnostic} (a : α) (h : x.severity ≠ .error) :
    Stops (.record x a) (.record x a) :=
  .done (by simpa [ErrorFree] using h)

theorem stops_fail {x : Diagnostic} {cause : Cause} (a : α) (h : cause.For x.problem) :
    Stops (.fail .leaveOut cause x a) (.fail .abort cause x a) :=
  .aborted errorFree_nil h

theorem Stops.bind {x y : Outcome α} {f g : α → Outcome β} (h : Stops x y)
    (hf : ∀ a, Stops (f a) (g a)) : Stops (x >>= f) (y >>= g) := by
  change Stops (x.bind f) (y.bind g)
  cases h with
  | @done a log hl =>
    have ha := hf a
    simp only [Outcome.bind]
    generalize f a = u at ha
    generalize g a = v at ha
    cases ha with
    | done hm => exact .done (hl.append hm)
    | aborted hm hc =>
      simp only [← List.append_assoc]
      exact .aborted (hl.append hm) hc
  | @aborted a before rest fatal cause hl hc =>
    have ha := hf a
    simp only [Outcome.bind]
    generalize f a = u at ha
    generalize g a = v at ha
    cases ha <;> simpa using Stops.aborted hl hc

theorem exists_of_mapM_error {ε : Type} {f : α → Except ε β} {l : List α} {e : ε}
    (h : l.mapM f = .error e) : ∃ a ∈ l, f a = .error e := by
  induction l with
  | nil => cases h
  | cons a l ih =>
    rw [List.mapM_cons] at h
    cases ha : f a with
    | error e' =>
      simp only [ha, Bind.bind, Except.bind, Except.error.injEq] at h
      exact ⟨a, by simp, h ▸ ha⟩
    | ok b =>
      cases hl : l.mapM f with
      | error e' =>
        simp only [ha, hl, Bind.bind, Except.bind, Except.error.injEq] at h
        obtain ⟨a', ha', he⟩ := ih (h ▸ hl)
        exact ⟨a', by simp [ha'], he⟩
      | ok m => simp [ha, hl, Bind.bind, Except.bind, pure, Except.pure] at h

/-- In components without parentheses in their names all expansions end. -/
theorem missingParameter_of_expandedSelector (hp : '(' ∉ ctx.component)
    (h : expandedSelector d ctx s = .error e) : ∃ k, e = .missingParameter k := by
  rw [expandedSelector] at h
  split at h
  · cases hm : (Selector.entries s).mapM (expand d ctx) with
    | ok l => simp [hm, Except.map] at h
    | error e' =>
      simp only [hm, Except.map, Except.error.injEq] at h
      obtain ⟨entry, -, he⟩ := exists_of_mapM_error (h ▸ hm)
      obtain ⟨σ, b, -, hends⟩ := exists_run_expand (d := d) hp entry
      exact missingParameter_of_ends (he ▸ hends)
  · cases h

mutual

theorem stops_inside (hp : '(' ∉ component) (parent : Option Text) : (n : Node) →
    Stops (inside ⟨d, .leaveOut⟩ component parent n) (inside ⟨d, .abort⟩ component parent n)
  | .rule selector children pos => by
    simp only [inside]
    cases hx : expandedSelector d ⟨component, parent⟩ (ownSelector d component selector) with
    | ok expanded => exact (stops_insideAll hp (some expanded) children).bind fun _ => stops_pure _
    | error e =>
      obtain ⟨k, rfl⟩ := missingParameter_of_expandedSelector hp hx
      exact stops_fail _ (.selector k _)
  | .block name params children pos => by
    simp only [inside]
    split
    · exact stops_fail _ (.nesting params component)
    · exact (stops_insideAll hp parent children).bind fun _ => stops_pure _
  | .statement name params pos => by
    simp only [inside]
    split
    · exact stops_fail _ (.nesting params component)
    · exact stops_pure _
  | .declaration x pos => stops_pure _
  | .comment text pos => stops_pure _

theorem stops_insideAll (hp : '(' ∉ component) (parent : Option Text) : (l : List Node) →
    Stops (insideAll ⟨d, .leaveOut⟩ component parent l) (insideAll ⟨d, .abort⟩ component parent l)
  | [] => stops_pure _
  | n :: l => by
    simp only [insideAll]
    exact (stops_inside hp parent n).bind fun _ =>
      (stops_insideAll hp parent l).bind fun _ => stops_pure _

end

/-- The names of the component blocks that are in no other one. -/
def componentNames : List Node → List Text
  | [] => []
  | .rule _ children _ :: l => componentNames children ++ componentNames l
  | .block name params children _ :: l =>
    (if isComponent name then params.firstWord?.toList else componentNames children) ++
      componentNames l
  | _ :: l => componentNames l

theorem stops_contents {children : List Node} (hp : ∀ name ∈ params.firstWord?, '(' ∉ name) :
    Stops (contents ⟨d, .leaveOut⟩ params (some children) pos)
      (contents ⟨d, .abort⟩ params (some children) pos) := by
  cases hw : params.firstWord? with
  | none =>
    simp only [contents, hw]
    exact stops_record _ nofun
  | some component =>
    simp only [contents, hw]
    exact stops_insideAll (hp component hw) none children

theorem stops_contents_none (params : Text) (pos : Position) :
    Stops (contents ⟨d, .leaveOut⟩ params none pos) (contents ⟨d, .abort⟩ params none pos) := by
  cases hw : params.firstWord? with
  | none =>
    simp only [contents, hw]
    exact stops_record _ nofun
  | some component =>
    simp only [contents, hw]
    exact stops_record _ nofun

theorem componentNames_cons (n : Node) (l : List Node) :
    componentNames (n :: l) = componentNames [n] ++ componentNames l := by
  cases n <;> simp [componentNames]

mutual

theorem stops_hoist : (n : Node) → (∀ name ∈ componentNames [n], '(' ∉ name) →
    Stops (hoist ⟨d, .leaveOut⟩ n) (hoist ⟨d, .abort⟩ n)
  | .rule selector children pos, hp => by
    have hc : ∀ name ∈ componentNames children, '(' ∉ name := by
      simpa [componentNames] using hp
    simp only [hoist]
    exact (stops_hoistAll children hc).bind fun _ => stops_pure _
  | .block name params children pos, hp => by
    simp only [hoist]
    split
    · rename_i hn
      have hw : ∀ name ∈ params.firstWord?, '(' ∉ name := by
        simpa [componentNames, hn] using hp
      exact (stops_contents hw).bind fun _ => stops_pure _
    · rename_i hn
      have hc : ∀ name ∈ componentNames children, '(' ∉ name := by
        simpa [componentNames, hn] using hp
      exact (stops_hoistAll children hc).bind fun _ => stops_pure _
  | .statement name params pos, _ => by
    simp only [hoist]
    split
    · exact (stops_contents_none params pos).bind fun _ => stops_pure _
    · exact stops_pure _
  | .declaration x pos, _ => stops_pure _
  | .comment text pos, _ => stops_pure _

theorem stops_hoistAll : (l : List Node) → (∀ name ∈ componentNames l, '(' ∉ name) →
    Stops (hoistAll ⟨d, .leaveOut⟩ l) (hoistAll ⟨d, .abort⟩ l)
  | [], _ => stops_pure _
  | n :: l, hp => by
    rw [componentNames_cons, List.forall_mem_append] at hp
    simp only [hoistAll]
    exact (stops_hoist n hp.1).bind fun _ => (stops_hoistAll l hp.2).bind fun _ => stops_pure _

end

/-- With the same dialect, leaving errors out always gives a sheet. If no error is recorded on the
way, stopping at errors gives the same sheet and the same diagnostics; otherwise it stops with the
first error, behind the diagnostics that were recorded before it. -/
theorem expandSheet_stops_at_first_error (d : Dialect) (sheet : List Node)
    (hp : ∀ name ∈ componentNames sheet, '(' ∉ name) :
    ∃ result log, expandSheet ⟨d, .leaveOut⟩ sheet = .done result log ∧
      (ErrorFree log → expandSheet ⟨d, .abort⟩ sheet = .done result log) ∧
      (¬ ErrorFree log → ∃ before fatal rest cause,
        log = before ++ fatal :: rest ∧ ErrorFree before ∧ fatal.severity = .error ∧
        expandSheet ⟨d, .abort⟩ sheet = .aborted cause before fatal ∧
        (expandSheet ⟨d, .abort⟩ sheet).diagnostics = before ++ [fatal] ∧
        (cause = .selector ↔ ∃ k s, fatal.problem = .failedMacro (.missingParameter k) s) ∧
        (cause = .nesting ↔ ∃ inner outer, fatal.problem = .nestedComponent inner outer)) := by
  have h : Stops (expandSheet ⟨d, .leaveOut⟩ sheet) (expandSheet ⟨d, .abort⟩ sheet) :=
    (stops_hoistAll sheet hp).bind fun _ => stops_pure _
  generalize expandSheet ⟨d, .leaveOut⟩ sheet = x at h
  generalize expandSheet ⟨d, .abort⟩ sheet = y at h
  cases h with
  | @done a log hl => exact ⟨a, log, rfl, fun _ => rfl, fun hn => absurd hl hn⟩
  | @aborted a before rest fatal cause hl hc =>
    have he : fatal.severity = .error := hc.severity
    refine ⟨a, _, rfl, fun hn => ?_, fun _ => ?_⟩
    · exact absurd he (hn fatal (by simp))
    · exact ⟨before, fatal, rest, cause, rfl, hl, he, rfl, rfl, hc.selector_iff, hc.nesting_iff⟩

/-- A block without a name, then a call without parameters, then a block in a block. -/
theorem expandSheet_stops_at_first_error_mixed :
    let sheet : List Node := [.block "component".toList [] [] ⟨1, 1⟩,
      .block "media".toList "print".toList
        [.block "component".toList "Button".toList
          [.rule ".a".toList [.rule "content()".toList [] ⟨4, 3⟩] ⟨3, 1⟩,
            .block "component".toList "Icon".toList [] ⟨5, 1⟩] ⟨2, 1⟩] ⟨1, 20⟩]
    let nameless : Diagnostic := ⟨.missingName, ⟨1, 1⟩⟩
    let faulty : Diagnostic :=
      ⟨.failedMacro (.missingParameter .content) "content()".toList, ⟨4, 3⟩⟩
    let nested : Diagnostic := ⟨.nestedComponent "Icon".toList "Button".toList, ⟨5, 1⟩⟩
    let result : List Node := [.block "media".toList "print".toList [.rule ".a".toList [] ⟨3, 1⟩]
      ⟨1, 20⟩]
    (∀ name ∈ componentNames sheet, '(' ∉ name) ∧
      expandSheet ⟨.webComponent, .leaveOut⟩ sheet = .done result [nameless, faulty, nested] ∧
      ∃ cause, expandSheet ⟨.webComponent, .abort⟩ sheet = .aborted cause [nameless] faulty ∧
        cause = .selector := by
  intro sheet nameless faulty nested result
  have hp : ∀ name ∈ componentNames sheet, '(' ∉ name := by
    have hc : isComponent "component".toList := by decide
    have hm : ¬ isComponent "media".toList := by decide
    have hw : Text.firstWord? "Button".toList = some "Button".toList := by decide +kernel
    have hs : componentNames sheet = ["Button".toList] := by
      simp only [sheet, componentNames, hc, hm, hw, if_true, Option.toList_some,
        List.append_nil]
      rfl
    rw [hs]
    decide
  have hd : expandSheet ⟨.webComponent, .leaveOut⟩ sheet =
      .done result [nameless, faulty, nested] := by decide +kernel
  have hn : nameless.severity ≠ .error := by decide
  have hf : faulty.severity = .error := rfl
  obtain ⟨_, log, hd', -, hs⟩ := expandSheet_stops_at_first_error .webComponent sheet hp
  obtain ⟨-, rfl⟩ := Outcome.done.inj (hd.symm.trans hd')
  have he : ¬ ErrorFree [nameless, faulty, nested] := fun h => h faulty (by simp) hf
  obtain ⟨before, fatal, rest, cause, hl, hb, hx, ha, -, hc, -⟩ := hs he
  refine ⟨hp, hd, cause, ?_⟩
  match before, hl with
  | [], hl =>
    have h₁ : nameless = fatal := (List.cons.inj hl).1
    exact absurd (h₁ ▸ hx) hn
  | [x], hl =>
    have h₁ : nameless = x := (List.cons.inj hl).1
    have h₂ : faulty = fatal := (List.cons.inj (List.cons.inj hl).2).1
    subst h₁ h₂
    exact ⟨ha, hc.2 ⟨_, _, rfl⟩⟩
  | _ :: x :: _, hl =>
    have h₂ : faulty = x := (List.cons.inj (List.cons.inj hl).2).1
    exact absurd hf (hb faulty (by simp [h₂]))

end ComponentSheet.Component
