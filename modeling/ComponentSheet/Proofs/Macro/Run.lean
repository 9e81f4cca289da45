import ComponentSheet.Macro.Expansion
import Mathlib.Control.Monad.Basic

/-! The replacement of macro calls step by step, with no budget. -/
namespace ComponentSheet.Macro

/-- The passes that are left, the running one first, and the text they work on. -/
structure Stage where
  passes : List (List Kind)
  text : Text

/-- A call and what took its place. -/
structure Substitution where
  call : Call
  replacement : Text

/-- One turn of the loop over a selector: the leftmost call of the running pass is replaced, or
there is none and the next pass begins. -/
inductive Step (d : Dialect) (ctx : Context) : Stage → List Substitution → Stage → Prop
  | substitute {kinds : List Kind} {rest : List (List Kind)} {s : Text} {c : Call} {r : Text}
      (hf : findCall kinds s = .ok (some c)) (hr : d.resolve ctx c.kind c.params = .ok r) :
      Step d ctx ⟨kinds :: rest, s⟩ [⟨c, r⟩] ⟨kinds :: rest, c.replacedBy r⟩
  | advance {kinds : List Kind} {rest : List (List Kind)} {s : Text}
      (hf : findCall kinds s = .ok none) : Step d ctx ⟨kinds :: rest, s⟩ [] ⟨rest, s⟩

/-- Turns one after the other, with all that they replace. -/
inductive Run (d : Dialect) (ctx : Context) : Stage → List Substitution → Stage → Prop
  | refl (a : Stage) : Run d ctx a [] a
  | head {a b c : Stage} {σ τ : List Substitution} (h : Step d ctx a σ b) (t : Run d ctx b τ c) :
      Run d ctx a (σ ++ τ) c

/-- The result at a stage from which there is no further turn. -/
inductive Ends (d : Dialect) (ctx : Context) : Stage → Except Failure Text → Prop
  | done (s : Text) : Ends d ctx ⟨[], s⟩ (.ok s)
  | faulty {kinds : List Kind} {rest : List (List Kind)} {s : Text} {e : Failure}
      (hf : findCall kinds s = .error e) : Ends d ctx ⟨kinds :: rest, s⟩ (.error e)
  | unresolved {kinds : List Kind} {rest : List (List Kind)} {s : Text} {c : Call} {e : Failure}
      (hf : findCall kinds s = .ok (some c)) (hr : d.resolve ctx c.kind c.params = .error e) :
      Ends d ctx ⟨kinds :: rest, s⟩ (.error e)

variable {d : Dialect} {ctx : Context} {a b c : Stage} {σ τ : List Substitution}
  {r : Except Failure Text}

theorem Run.step (h : Step d ctx a σ b) : Run d ctx a σ b := by
  simpa using Run.head h (.refl b)

theorem step_or_ends (d : Dialect) (ctx : Context) (a : Stage) :
    (∃ σ b, Step d ctx a σ b) ∨ ∃ r, Ends d ctx a r := by
  obtain ⟨passes, s⟩ := a
  cases passes with
  | nil => exact Or.inr ⟨_, .done s⟩
  | cons kinds rest =>
    cases hf : findCall kinds s with
    | error e => exact Or.inr ⟨_, .faulty hf⟩
    | ok found =>
      cases found with
      | none => exact Or.inl ⟨_, _, .advance hf⟩
      | some c =>
        cases hr : d.resolve ctx c.kind c.params with
        | error e => exact Or.inr ⟨_, .unresolved hf hr⟩
        | ok t => exact Or.inl ⟨_, _, .substitute hf hr⟩

theorem Step.unique {b' : Stage} {σ' : List Substitution} (h : Step d ctx a σ b)
    (h' : Step d ctx a σ' b') : σ' = σ ∧ b' = b := by
  cases h with
  | substitute hf hr =>
    cases h' with
    | substitute hf' hr' =>
      cases hf'.symm.trans hf
      cases hr'.symm.trans hr
      exact ⟨rfl, rfl⟩
    | advance hf' => cases hf'.symm.trans hf
  | advance hf =>
    cases h' with
    | substitute hf' _ => cases hf'.symm.trans hf
    | advance _ => exact ⟨rfl, rfl⟩

theorem Ends.no_step (h : Ends d ctx a r) : ¬ Step d ctx a σ b := by
  intro hs
  cases h with
  | done => cases hs
  | faulty hf =>
    cases hs with
    | substitute hf' _ => cases hf'.symm.trans hf
    | advance hf' => cases hf'.symm.trans hf
  | unresolved hf hr =>
    cases hs with
    | substitute hf' hr' =>
      cases hf'.symm.trans hf
      cases hr'.symm.trans hr
    | advance hf' => cases hf'.symm.trans hf

def Along (d : Dialect) (ctx : Context) (P : Substitution → Prop) (a : Stage) : Prop :=
  ∀ σ b, Run d ctx a σ b → ∀ x ∈ σ, P x

variable {P : Substitution → Prop}

theorem Along.step (h : Along d ctx P a) (hs : Step d ctx a σ b) :
    (∀ x ∈ σ, P x) ∧ Along d ctx P b := by
  refine ⟨h σ b (.step hs), fun τ c hr x hx => ?_⟩
  exact h (σ ++ τ) c (.head hs hr) x (List.mem_append_right _ hx)

theorem Along.mono {Q : Substitution → Prop} (h : Along d ctx P a) (hpq : ∀ x, P x → Q x) :
    Along d ctx Q a :=
  fun σ b hr x hx => hpq x (h σ b hr x hx)

theorem along_of_step (hs : Step d ctx a σ b) (hσ : ∀ x ∈ σ, P x) (h : Along d ctx P b) :
    Along d ctx P a := by
  intro τ c hr x hx
  cases hr with
  | refl => cases hx
  | head hs' hr =>
    obtain ⟨rfl, rfl⟩ := hs.unique hs'
    rcases List.mem_append.1 hx with hx | hx
    · exact hσ x hx
    · exact h _ _ hr x hx

theorem along_of_ends (he : Ends d ctx a r) : Along d ctx P a := by
  intro τ c hr x hx
  cases hr with
  | refl => cases hx
  | head hs _ => exact absurd hs he.no_step

theorem Run.keeps {I : Stage → Prop} (hr : Run d ctx a σ b) (h : Along d ctx P a) (ha : I a)
    (hstep : ∀ {a b : Stage} {σ : List Substitution}, Step d ctx a σ b → (∀ x ∈ σ, P x) →
      I a → I b) : I b := by
  induction hr with
  | refl a => exact ha
  | head hs _ ih => exact ih (h.step hs).2 (hstep hs (h.step hs).1 ha)

/-- Makes at most `n` turns from a stage on, and tells whether all that they replace satisfies `P`
and there is no turn left. -/
def checked (d : Dialect) (ctx : Context) (P : Substitution → Prop) [DecidablePred P] :
    Nat → Stage → Bool
  | 0, _ => false
  | _ + 1, ⟨[], _⟩ => true
  | n + 1, ⟨kinds :: rest, s⟩ =>
    match findCall kinds s with
    | .error _ => true
    | .ok none => checked d ctx P n ⟨rest, s⟩
    | .ok (some c) =>
      match d.resolve ctx c.kind c.params with
      | .error _ => true
      | .ok r => decide (P ⟨c, r⟩) && checked d ctx P n ⟨kinds :: rest, c.replacedBy r⟩

section

variable [DecidablePred P] {n : Nat}

theorem checked_step (hs : Step d ctx a σ b) :
    checked d ctx P (n + 1) a ↔ (∀ x ∈ σ, P x) ∧ checked d ctx P n b := by
  cases hs with
  | substitute hf hr => simp [checked, hf, hr]
  | advance hf => simp [checked, hf]

theorem checked_ends (he : Ends d ctx a r) : checked d ctx P (n + 1) a := by
  cases he with
  | done => rfl
  | faulty hf => simp [checked, hf]
  | unresolved hf hr => simp [checked, hf, hr]

theorem along_of_checked (h : checked d ctx P n a) : Along d ctx P a := by
  induction n generalizing a with
  | zero => cases h
  | succ n ih =>
    rcases step_or_ends d ctx a with ⟨σ, b, hs⟩ | ⟨r, he⟩
    · obtain ⟨hσ, hb⟩ := (checked_step hs).1 h
      exact along_of_step hs hσ (ih hb)
    · exact along_of_ends he

end

/-- The passes from a stage on, with a budget. -/
def Stage.within (d : Dialect) (ctx : Context) (budget : Nat) (a : Stage) :
    Except Failure (Nat × Text) :=
  a.passes.foldlM (fun r kinds => replaceCalls d ctx kinds r.1 r.2) (budget, a.text)

theorem within_advance {n : Nat} {kinds : List Kind} {rest : List (List Kind)} {s : Text}
    (hf : findCall kinds s = .ok none) :
    Stage.within d ctx n ⟨kinds :: rest, s⟩ = Stage.within d ctx n ⟨rest, s⟩ := by
  have h : replaceCalls d ctx kinds n s = .ok (n, s) := by
    rw [replaceCalls.eq_def]
    dsimp only
    rw [hf]
    rfl
  simp only [Stage.within, List.foldlM_cons, h]
  rfl

theorem within_substitute {n : Nat} {kinds : List Kind} {rest : List (List Kind)} {s t : Text}
    {c : Call} (hf : findCall kinds s = .ok (some c))
    (hr : d.resolve ctx c.kind c.params = .ok t) :
    Stage.within d ctx (n + 1) ⟨kinds :: rest, s⟩ =
      Stage.within d ctx n ⟨kinds :: rest, c.replacedBy t⟩ := by
  have h : replaceCalls d ctx kinds (n + 1) s = replaceCalls d ctx kinds n (c.replacedBy t) := by
    rw [replaceCalls.eq_def]
    dsimp only
    rw [hf]
    dsimp only [bind, Except.bind]
    rw [hr]
  simp only [Stage.within, List.foldlM_cons, h]

theorem within_error {n : Nat} {kinds : List Kind} {rest : List (List Kind)} {s : Text}
    {e : Failure} (h : replaceCalls d ctx kinds n s = .error e) :
    Stage.within d ctx n ⟨kinds :: rest, s⟩ = .error e := by
  simp only [Stage.within, List.foldlM_cons, h]
  rfl

theorem within_step {n : Nat} (h : Step d ctx a σ b) :
    a.within d ctx (n + σ.length) = b.within d ctx n := by
  cases h with
  | substitute hf hr => exact within_substitute hf hr
  | advance hf => exact within_advance hf

theorem within_run {n : Nat} (h : Run d ctx a σ b) :
    a.within d ctx (n + σ.length) = b.within d ctx n := by
  induction h generalizing n with
  | refl a => rfl
  | head h _ ih =>
    rw [List.length_append, Nat.add_comm (List.length _), ← Nat.add_assoc, within_step h, ih]

theorem within_ends {n : Nat} (h : Ends d ctx a r) :
    (a.within d ctx (n + 1)).map (·.2) = r := by
  cases h with
  | done s => rfl
  | faulty hf =>
    rw [within_error]
    · rfl
    · rw [replaceCalls.eq_def]
      dsimp only
      rw [hf]
      rfl
  | unresolved hf hr =>
    rw [within_error]
    · rfl
    · rw [replaceCalls.eq_def]
      dsimp only
      rw [hf]
      dsimp only [bind, Except.bind]
      rw [hr]

/-- A run that stays below the budget and has come to its end gives the expansion. -/
theorem expand_eq_of_run {s : Text} (h : Run d ctx ⟨d.passes, s⟩ σ b) (he : Ends d ctx b r)
    (hn : σ.length < budgetFor ctx s) : expand d ctx s = r := by
  obtain ⟨n, hn⟩ := Nat.exists_eq_add_of_lt hn
  have hw := within_run (n := n + 1) h
  rw [show n + 1 + σ.length = budgetFor ctx s by omega] at hw
  rw [expand, expandWithin]
  exact (congrArg _ hw).trans (within_ends he)

theorem exists_pass (d : Dialect) (k : Kind) : ∃ kinds ∈ d.passes, k ∈ kinds := by
  cases d <;> cases k <;> decide

theorem missingParameter_of_firstCall {l : List Part} {e : Failure} (h : firstCall l = .error e) :
    ∃ k, e = .missingParameter k := by
  fun_induction firstCall l with
  | case1 => cases h
  | case2 t l ih =>
    cases hl : firstCall l with
    | ok found => simp [hl, Except.map] at h
    | error e' =>
      simp only [hl, Except.map, Except.error.injEq] at h
      exact ih (h ▸ hl)
  | case3 k => exact ⟨k, by simpa using h.symm⟩
  | case4 => cases h
  | case5 k => exact ⟨k, by simpa using h.symm⟩

theorem missingParameter_of_resolve {k : Kind} {p : Text} {e : Failure}
    (h : d.resolve ctx k p = .error e) : ∃ k, e = .missingParameter k := by
  simp only [Dialect.resolve] at h
  split at h
  · exact ⟨k, by simpa using h.symm⟩
  · cases k with
    | content =>
      dsimp only at h
      split at h
      · exact ⟨.content, by simpa using h.symm⟩
      · cases h
    | component | attr | variant | state => cases h

theorem missingParameter_of_ends {e : Failure} (h : Ends d ctx a (.error e)) :
    ∃ k, e = .missingParameter k := by
  cases h with
  | faulty hf => exact missingParameter_of_firstCall hf
  | unresolved _ hr => exact missingParameter_of_resolve hr

end ComponentSheet.Macro
