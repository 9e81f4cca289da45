import ComponentSheet.Macro.Part

/-! The first macro call of a selector. -/

namespace ComponentSheet.Macro

/-- A macro call and the text around it. -/
structure Call where
  before : Text
  kind : Kind
  /-- What stands between the parentheses, as written. -/
  params : Text
  after : Text
deriving DecidableEq, Repr

namespace Call

def text (c : Call) : Text :=
  c.kind.name ++ '(' :: c.params ++ [')']

/-- The text around the call with another text in its place. -/
def replacedBy (c : Call) (replacement : Text) : Text :=
  c.before ++ replacement ++ c.after

/-- The first byte of the call. -/
def start (c : Call) : Nat :=
  c.before.byteLength

/-- The byte behind the call. -/
def stop (c : Call) : Nat :=
  c.start + c.text.byteLength

end Call

def firstCall : List Part → Except Failure (Option Call)
  | [] => .ok none
  | .plain t :: l => (firstCall l).map (Option.map fun c => { c with before := t ++ c.before })
  | .call k params :: l =>
    if params.trim = [] then .error (.missingParameter k)
    else .ok (some ⟨[], k, params, textOf l⟩)
  | .openCall k _ :: _ => .error (.missingParameter k)

theorem textOf_of_firstCall {l : List Part} {c : Call} (h : firstCall l = .ok (some c)) :
    textOf l = c.before ++ c.text ++ c.after := by
  fun_induction firstCall l generalizing c with
  | case1 => cases h
  | case2 t l ih =>
    cases hl : firstCall l with
    | error e => simp [hl, Except.map] at h
    | ok found =>
      cases found with
      | none => simp [hl, Except.map] at h
      | some b =>
        simp only [hl, Except.map, Option.map_some, Except.ok.injEq, Option.some.injEq] at h
        subst h
        simp [ih hl, Part.text, Call.text]
  | case3 => cases h
  | case4 k params l =>
    cases h
    simp [Part.text, Call.text]
  | case5 => cases h

/-- The leftmost call of one of `kinds`. It has to be closed and to have parameters. -/
def findCall (kinds : List Kind) (s : Text) : Except Failure (Option Call) :=
  firstCall (parts kinds s)

theorem eq_of_findCall {kinds : List Kind} {s : Text} {c : Call}
    (h : findCall kinds s = .ok (some c)) : s = c.before ++ c.text ++ c.after :=
  (textOf_parts kinds s).symm.trans (textOf_of_firstCall h)

/-- Whether a text holds a macro call, be it a faulty one. -/
def containsCall (s : Text) : Bool :=
  match findCall Kind.all s with
  | .ok none => false
  | _ => true

end ComponentSheet.Macro
